import JobTrail.Proofs.Gate.Admission
import JobTrail.Proofs.Storage.Races
import JobTrail.User.Endpoints

/-!
# Signups side by side

What several signups with one email come to if they run at the same time and no two users may have the same
email. A signup looks for the email first, but the look can miss a user that is added after it, so it is
the index on emails that decides: the first insertion succeeds, and every other signup is told in the same
words that the email is taken, whether its look or its insertion found that out.
-/

set_option maxRecDepth 8192

namespace JobTrail.User

open Sql Storage

variable {e : Engine} {s s' : Storage} {email : String} {v : Visit} {signup : Signup}
  {script : List Exchange}

/-! ## The exchanges of one signup -/

def lookText : String := "SELECT id FROM users WHERE email = $1"

def insertionText : String :=
  ("INSERT INTO users "
   ++ "(id, name, email, password_hash, university, major, graduation_year, "
   ++ "linkedin_profile, weekly_goal) "
   ++ "VALUES ($1::uuid, $2, $3, $4, $5, $6, $7::int, $8, $9::int) "
   ++ "RETURNING id, name, email, university, major, graduation_year, linkedin_profile, "
   ++ "weekly_goal, created_at")

def look (email : String) : Statement := ⟨lookText, [.text email]⟩

def insertion (signup : Signup) (salt : List UInt8) (id : String) : Statement :=
  ⟨insertionText, [.text id, .text signup.name, .text signup.email,
    .text (hashPassword salt signup.password), .text signup.university, .text signup.major,
    .ofInt signup.graduationYear, .ofText? signup.linkedinProfile,
    .ofInt (signup.weeklyGoal.getD defaultWeeklyGoal)]⟩

def taken : Refusal := .api (.conflict emailTakenMessage)

/-- What is left of a signup once its insertion is answered. -/
def welcome (v : Visit) (email : String) : Except DatabaseError (List Record) → Handler Reply
  | .ok rows => do
    let user ← Handler.service (Service.first rows missing)
    return Reply.created (.record (← session v user email))
  | .error (.duplicate _) => throw taken
  | .error err => Handler.refuse err.toApi

/-- A signup with a valid form looks for its email, and inserts a user if it finds none. -/
theorem run_signup {body : Value} (hbody : v.jsonBody = .ok body)
    (hform : signupForm.run body = .ok (some signup)) :
    (Endpoint.signup v).run = .ask (.execute (look signup.email)) fun
      | .error err => .done (.error (.api err.toApi))
      | .ok (_ :: _) => .done (.error taken)
      | .ok [] => .ask .freshSalt fun salt => .ask .freshId fun id =>
        .ask (.execute (insertion signup salt id)) fun answer => (welcome v signup.email answer).run := by
  unfold Endpoint.signup
  have hjson : v.json.run = .done (.ok body) := by
    rw [Visit.json, hbody]
    rfl
  have hcheck : (Handler.check signupForm "Invalid signup" body).run = .done (.ok signup) := by
    rw [Handler.check, hform]
    rfl
  rw [Handler.run_andThen_ok hjson, Handler.run_andThen_ok hcheck]
  refine congrArg (Task.ask (.execute (look signup.email))) (funext fun found => ?_)
  rcases found with err | _ | ⟨row, rows⟩
  · rfl
  · refine congrArg (Task.ask .freshSalt) (funext fun salt => ?_)
    refine congrArg (Task.ask .freshId) (funext fun id => ?_)
    refine congrArg (Task.ask (.execute (insertion signup salt id))) (funext fun answer => ?_)
    rcases answer with (_ | text | _ | _) | _ | ⟨user, users⟩
    all_goals rfl
  · rfl

/-! ## Statements -/

def newColumns : List String :=
  ["id", "name", "email", "password_hash", "university", "major", "graduation_year", "linkedin_profile",
    "weekly_goal"]

def newValues : List Operand :=
  [.parameter 0 (some "uuid"), .parameter 1 none, .parameter 2 none, .parameter 3 none, .parameter 4 none,
    .parameter 5 none, .parameter 6 (some "int"), .parameter 7 none, .parameter 8 (some "int")]

def answered : Columns :=
  .these ["id", "name", "email", "university", "major", "graduation_year", "linkedin_profile", "weekly_goal",
    "created_at"]

theorem read?_look :
    read? lookText = some (.select (.these ["id"]) "users" none [.equals "email" (.parameter 0 none)] []) :=
  (spells_ofList _).read? (by decide)

theorem read?_insertion :
    read? insertionText = some (.insert "users" newColumns newValues false (some answered)) :=
  ((((((spells_ofList _).append (spells_ofList _)).append (spells_ofList _)).append (spells_ofList _)).append
    (spells_ofList _)).append (spells_ofList _)).read? (by decide)

def HasEmail (email : Value) (r : Record) : Prop := r.column "email" = email

instance (email : Value) (r : Record) : Decidable (HasEmail email r) := inferInstanceAs (Decidable (_ = _))

/-- How many users have an email. -/
def holders (email : Value) (db : Database) : Nat := (db.rows "users").countP (HasEmail email ·)

/-- What a unique index on the emails of users keeps to. -/
def UniqueEmails (db : Database) : Prop := ∀ email ≠ .null, holders email db ≤ 1

theorem obeys_look {x : Except DatabaseError (List Record)} (h : Obeys e s (.execute (look email)) x s') :
    s'.db = s.db ∧ ∃ found, x = .ok found ∧ (found = [] ↔ holders (.text email) s.db = 0) := by
  obtain ⟨rows, db', hrun, rfl, rfl⟩ := (obeys_execute_iff read?_look).mp h
  cases (run_select_text _ _ _ _).symm.trans hrun
  refine ⟨rfl, _, rfl, ?_⟩
  rw [List.map_eq_nil_iff, arrange_eq_nil_iff, List.filter_eq_nil_iff, holders, List.countP_eq_zero]
  rfl

theorem obeys_look_free (hfree : holders (.text email) s.db = 0) :
    Obeys e s (.execute (look email)) (.ok []) s := by
  apply (obeys_execute_iff read?_look).mpr
  refine ⟨[], s.db, (run_select_text _ _ _ _).trans ?_, rfl, rfl⟩
  have hnone : (s.db.rows "users").filter (fun r => r.column "email" = .text email) = [] := by
    rw [List.filter_eq_nil_iff]
    exact List.countP_eq_zero.mp hfree
  rw [arrange_eq_nil_iff.mpr hnone]
  rfl

/-- A new user has the email and no other, and is answered with an id. -/
theorem obeys_insertion {salt : List UInt8} {id : String} {x : Except DatabaseError (List Record)}
    (h : Obeys e s (.execute (insertion signup salt id)) x s') :
    (∀ email, holders email s'.db = holders email s.db + if email = .text signup.email then 1 else 0) ∧
      ∃ user key, x = .ok [user] ∧ user.get? "id" = some (.text key) := by
  obtain ⟨rows, db', hrun, rfl, rfl⟩ := (obeys_execute_iff read?_insertion).mp h
  obtain ⟨fs, hfs, ⟨⟨⟩, -⟩ | ⟨rfl, rfl⟩⟩ := run_insert hrun
  let row := newRow e "users" newColumns (fs.map fun f => f [])
  have hid : castTo e (.text id) (some "uuid") = .ok (row.column "id") := column_newRow_parameter hfs rfl rfl
  have hemail : castTo e (.text signup.email) none = .ok (row.column "email") :=
    column_newRow_parameter hfs rfl rfl
  obtain ⟨digits, -, hkey⟩ := castUuid_eq_ok hid
  constructor
  · intro email
    have hrow : HasEmail email row ↔ email = .text signup.email := by
      rw [HasEmail, ← Except.ok.inj hemail, eq_comm]
    simp [holders, Sql.rows_set, List.countP_append, List.countP_cons, row, hrow]
  · refine ⟨_, Uuid.print digits, rfl, ?_⟩
    rw [← hkey]
    rfl

/-! ## Statements under a unique index -/

theorem enforces_look {x : Except DatabaseError (List Record)}
    (h : Enforces e UniqueEmails s (.execute (look email)) x s') :
    s'.db = s.db ∧ ∃ found, x = .ok found ∧ (found = [] ↔ holders (.text email) s.db = 0) := by
  cases h with
  | obeys hobeys _ => exact obeys_look hobeys
  | refuses text hindex hobeys hbroken =>
    rw [(obeys_look hobeys).1] at hbroken
    exact absurd hindex hbroken

/-- An insertion adds a user with a free email, and it is refused if the email is taken. -/
theorem enforces_insertion {salt : List UInt8} {id : String} {x : Except DatabaseError (List Record)}
    (h : Enforces e UniqueEmails s (.execute (insertion signup salt id)) x s') :
    (∃ user key, x = .ok [user] ∧ user.get? "id" = some (.text key) ∧
        holders (.text signup.email) s'.db = holders (.text signup.email) s.db + 1) ∨
      ∃ text, x = .error (.duplicate text) ∧ s' = s ∧ holders (.text signup.email) s.db ≠ 0 := by
  cases h with
  | obeys hobeys _ =>
    obtain ⟨hholders, user, key, hx, hid⟩ := obeys_insertion hobeys
    refine .inl ⟨user, key, hx, hid, ?_⟩
    rw [hholders, if_pos rfl]
  | refuses text hindex hobeys hbroken =>
    refine .inr ⟨text, rfl, rfl, ?_⟩
    intro hfree
    apply hbroken
    intro email hemail
    rw [(obeys_insertion hobeys).1]
    split
    · rename_i he
      rw [he, hfree]
    · exact hindex email hemail

theorem uniqueEmails_of_enforces {r : Effect} {x : r.Answer} (h : Enforces e UniqueEmails s r x s') :
    UniqueEmails s'.db := by
  cases h with
  | obeys _ hindex => exact hindex
  | refuses _ hindex _ _ => exact hindex

/-! ## One signup under a unique index -/

theorem run_session {user : Record} {id : String} (hid : user.get? "id" = some (.text id))
    (hexpiry : (v.keys.expiry? v.now).isSome) (email : String) :
    ∃ reply, (session v user email).run = .done (.ok reply) := by
  obtain ⟨expires, hexpires⟩ := Option.isSome_iff_exists.mp hexpiry
  unfold session
  rw [hid]
  dsimp only [Option.bind, Value.text?, TokenKeys.issue?]
  rw [hexpires]
  exact ⟨_, rfl⟩

theorem run_welcome {user : Record} {id : String} (hid : user.get? "id" = some (.text id))
    (hexpiry : (v.keys.expiry? v.now).isSome) (email : String) :
    ∃ reply : Reply, reply.status = 201 ∧ (welcome v email (.ok [user])).run = .done (.ok reply) := by
  obtain ⟨session, hsession⟩ := run_session hid hexpiry email
  refine ⟨Reply.created (.record session), rfl, ?_⟩
  have hfirst : (Handler.service (Service.first [user] missing)).run = .done (.ok user) := rfl
  dsimp only [welcome]
  rw [Handler.run_andThen_ok hfirst, Handler.run_andThen_ok hsession]
  rfl

/-- The exchanges of a signup that found nobody with its email. -/
def attempt (signup : Signup) (salt : List UInt8) (id : String)
    (answer : Except DatabaseError (List Record)) : List Exchange :=
  [⟨.execute (look signup.email), .ok []⟩, ⟨.freshSalt, salt⟩, ⟨.freshId, id⟩,
    ⟨.execute (insertion signup salt id), answer⟩]

inductive IsScript (signup : Signup) : List Exchange → Except Refusal Reply → Prop where
  | taken {row : Record} {rows : List Record} :
      IsScript signup [⟨.execute (look signup.email), .ok (row :: rows)⟩] (.error User.taken)
  | refused {salt : List UInt8} {id text : String} :
      IsScript signup (attempt signup salt id (.error (.duplicate text))) (.error User.taken)
  | stored {salt : List UInt8} {id : String} {user : Record} {reply : Reply} : reply.status = 201 →
      IsScript signup (attempt signup salt id (.ok [user])) (.ok reply)

/-- A signup is told that its email is taken, or it succeeds. -/
theorem isScript_of_plays {body : Value} {x : Except Refusal Reply} (hbody : v.jsonBody = .ok body)
    (hform : signupForm.run body = .ok (some signup)) (hexpiry : (v.keys.expiry? v.now).isSome)
    (hplays : (Endpoint.signup v).run.Plays script x)
    (hgives : ∀ x ∈ script, (Enforces e UniqueEmails).Gives x) : IsScript signup script x := by
  rw [run_signup hbody hform] at hplays
  cases hplays with
  | @ask _ _ answer script _ hrest =>
    obtain ⟨⟨s, s', hlook⟩, hrests⟩ := List.forall_mem_cons.mp hgives
    obtain ⟨-, found, rfl, -⟩ := enforces_look hlook
    cases found with
    | cons row rows =>
      obtain ⟨rfl, rfl⟩ := Task.plays_done_iff.mp hrest
      exact .taken
    | nil =>
      cases hrest with
      | @ask _ _ salt _ _ hnaming =>
        cases hnaming with
        | @ask _ _ id _ _ hinserting =>
          cases hinserting with
          | @ask _ _ answer _ _ hwelcome =>
            obtain ⟨s, s', hinsertion⟩ := hrests _ (List.mem_of_getElem? (i := 2) rfl)
            rcases enforces_insertion hinsertion with ⟨user, key, rfl, hid, -⟩ | ⟨text, rfl, -, -⟩
            · obtain ⟨reply, hstatus, hrun⟩ := run_welcome hid hexpiry signup.email
              change (welcome v signup.email (.ok [user])).run.Plays _ x at hwelcome
              rw [hrun] at hwelcome
              obtain ⟨rfl, rfl⟩ := Task.plays_done_iff.mp hwelcome
              exact .stored hstatus
            · obtain ⟨rfl, rfl⟩ := Task.plays_done_iff.mp hwelcome
              exact .refused

theorem plays_attempt {body : Value} {x : Except Refusal Reply} (hbody : v.jsonBody = .ok body)
    (hform : signupForm.run body = .ok (some signup)) {answer : Except DatabaseError (List Record)}
    (hrun : (welcome v signup.email answer).run = .done x) (salt : List UInt8) (id : String) :
    (Endpoint.signup v).run.Plays (attempt signup salt id answer) x := by
  have hwelcome : (welcome v signup.email answer).run.Plays [] x := by
    rw [hrun]
    exact .done x
  rw [run_signup hbody hform]
  exact .ask (.ask (.ask (.ask hwelcome)))

/-! ## A whole history -/

/-- The exchange adds a user. -/
def stores : Exchange → Bool
  | ⟨.execute statement, .ok _⟩ => statement.sql = insertionText
  | _ => false

inductive IsPart (email : String) : Effect → Prop where
  | look : IsPart email (.execute (look email))
  | salting : IsPart email .freshSalt
  | naming : IsPart email .freshId
  | insertion {signup : Signup} (salt : List UInt8) (id : String) : signup.email = email →
      IsPart email (.execute (insertion signup salt id))

@[simp] theorem not_stores_look (email : String) (x : Except DatabaseError (List Record)) :
    stores ⟨.execute (look email), x⟩ = false := by
  have htexts : lookText ≠ insertionText := by decide
  cases x <;> simp [stores, look, htexts]

theorem mem_attempt_iff {salt : List UInt8} {id : String} {answer : Except DatabaseError (List Record)}
    {y : Exchange} : y ∈ attempt signup salt id answer ↔
      y = ⟨.execute (look signup.email), .ok []⟩ ∨ y = ⟨.freshSalt, salt⟩ ∨ y = ⟨.freshId, id⟩ ∨
        y = ⟨.execute (insertion signup salt id), answer⟩ := by
  simp [attempt]

theorem isPart_attempt {salt : List UInt8} {id : String} {answer : Except DatabaseError (List Record)} :
    ∀ y ∈ attempt signup salt id answer, IsPart signup.email y.effect := by
  intro y hy
  rcases mem_attempt_iff.mp hy with rfl | rfl | rfl | rfl
  · exact .look
  · exact .salting
  · exact .naming
  · exact .insertion salt id rfl

theorem IsScript.isPart {x : Except Refusal Reply} (h : IsScript signup script x) :
    ∀ y ∈ script, IsPart signup.email y.effect := by
  cases h with
  | taken =>
    intro y hy
    obtain rfl := List.mem_singleton.mp hy
    exact .look
  | refused => exact isPart_attempt
  | stored _ => exact isPart_attempt

/-- A signup succeeds exactly if it adds a user. -/
theorem IsScript.succeeds_or_refused {x : Except Refusal Reply} (h : IsScript signup script x) :
    (∃ reply, x = .ok reply ∧ reply.status = 201 ∧ ∃ y ∈ script, stores y) ∨
      x = .error User.taken ∧ ∀ y ∈ script, ¬ stores y := by
  cases h with
  | taken =>
    refine .inr ⟨rfl, ?_⟩
    intro y hy
    obtain rfl := List.mem_singleton.mp hy
    simp
  | refused =>
    refine .inr ⟨rfl, ?_⟩
    intro y hy
    rcases mem_attempt_iff.mp hy with rfl | rfl | rfl | rfl
    · simp
    · simp [stores]
    · simp [stores]
    · simp [stores]
  | stored hstatus =>
    exact .inl ⟨_, rfl, hstatus, _, List.mem_of_getLast? rfl, by simp [stores, insertion]⟩

section Along

variable {history : List Turn} {turn : Turn}

theorem holders_step (hpart : IsPart email turn.exchange.effect)
    (h : Enforces e UniqueEmails s turn.exchange.effect turn.exchange.answer s') :
    holders (.text email) s'.db = holders (.text email) s.db + if stores turn.exchange then 1 else 0 := by
  obtain ⟨place, r, x⟩ := turn
  cases hpart with
  | look =>
    obtain ⟨hsame, found, rfl, -⟩ := enforces_look h
    simp [hsame]
  | salting =>
    cases h with
    | obeys hobeys _ =>
      obtain ⟨hserves, -⟩ := hobeys
      cases hserves
      simp [stores]
  | naming =>
    cases h with
    | obeys hobeys _ =>
      have hsame : s'.db = s.db := Obeys.freshId hobeys
      simp [stores, hsame]
  | insertion salt id hemail =>
    subst hemail
    rcases enforces_insertion h with ⟨user, key, rfl, -, hmore⟩ | ⟨text, rfl, rfl, -⟩
    · simpa [stores, insertion] using hmore
    · simp [stores]

theorem holders_along (h : Along (Enforces e UniqueEmails) s history s')
    (hparts : ∀ turn ∈ history, IsPart email turn.exchange.effect) :
    holders (.text email) s'.db = holders (.text email) s.db + history.countP (stores ·.exchange) := by
  induction h with
  | nil s => rfl
  | cons hanswer _ ih =>
    obtain ⟨hpart, hrest⟩ := List.forall_mem_cons.mp hparts
    rw [ih hrest, holders_step hpart hanswer, List.countP_cons]
    omega

theorem uniqueEmails_along (h : Along (Enforces e UniqueEmails) s history s') (hindex : UniqueEmails s.db) :
    UniqueEmails s'.db := by
  induction h with
  | nil s => exact hindex
  | cons hanswer _ ih => exact ih (uniqueEmails_of_enforces hanswer)

end Along

end JobTrail.User

/-! ## The answer to one signup -/

namespace JobTrail.Site

open User Sql Storage

variable {site : Site} {now : Int} {r : HttpRequest}

theorem respond_signup (hplace : Place.ofPath? r.path = some (.unguarded .signup))
    (hmethod : r.method = .post) :
    site.respond now r = (User.Endpoint.signup (site.visit now r)).run >>= fun x =>
      pure (site.delivered r (x.map .ofReply)) := respond_posted hplace hmethod rfl

/-- A valid request to sign up with an email, at a time for which a token can be issued. -/
structure SignsUp (site : Site) (email : String) (now : Int) (r : HttpRequest) : Prop where
  place : Place.ofPath? r.path = some (.unguarded .signup)
  method : r.method = .post
  form : ∃ body signup, (site.visit now r).jsonBody = .ok body ∧
    signupForm.run body = .ok (some signup) ∧ signup.email = email
  expiry : (site.keys.expiry? now).isSome

section Race

variable {e : Engine} {s s' : Storage} {email : String} {requests : List (Int × HttpRequest)}
  {history : List Turn} {responses : List HttpResponse}
  (hrequests : ∀ p ∈ requests, site.SignsUp email p.1 p.2)
  (hrace : Race (Enforces e UniqueEmails) s (requests.map fun p => site.respond p.1 p.2) history s' responses)
include hrequests hrace

theorem script_of_race {place : Nat} {p : Int × HttpRequest} (hp : requests[place]? = some p) :
    ∃ signup x, signup.email = email ∧ IsScript signup (turnsAt place history) x ∧
      responses[place]? = some (site.delivered p.2 (x.map .ofReply)) := by
  obtain ⟨hplace, hmethod, ⟨body, signup, hbody, hform, hemail⟩, hexpiry⟩ :=
    hrequests p (List.mem_of_getElem? hp)
  obtain ⟨response, hresponse, hplays, hgives⟩ := hrace.exists_result hp
  rw [respond_signup hplace hmethod] at hplays
  obtain ⟨first, rest, x, hscript, hsignup, hdone⟩ := Task.plays_bind_iff.mp hplays
  obtain ⟨rfl, rfl⟩ := Task.plays_done_iff.mp hdone
  rw [List.append_nil] at hscript
  rw [hscript] at hgives ⊢
  exact ⟨signup, x, hemail, isScript_of_plays hbody hform hexpiry hsignup hgives, hresponse⟩

theorem isPart_of_race : ∀ turn ∈ history, IsPart email turn.exchange.effect := by
  intro turn hturn
  obtain ⟨p, hp⟩ := hrace.exists_call hturn
  obtain ⟨signup, x, rfl, hscript, -⟩ := script_of_race hrequests hrace hp
  exact hscript.isPart _ (exchange_mem_turnsAt hturn)

/-- A turn is taken when there are as many users with the email as were added before it. -/
theorem holders_before (hfree : holders (.text email) s.db = 0) {before after : List Turn} {turn : Turn}
    (hsplit : history = before ++ turn :: after) :
    ∃ s₁ s₂, Enforces e UniqueEmails s₁ turn.exchange.effect turn.exchange.answer s₂ ∧
      holders (.text email) s₁.db = before.countP (stores ·.exchange) := by
  have halong := hrace.along
  have hparts := isPart_of_race hrequests hrace
  rw [hsplit] at halong hparts
  obtain ⟨s₁, hbefore, hafter⟩ := along_append_iff.mp halong
  cases hafter with
  | cons hanswer _ =>
    refine ⟨s₁, _, hanswer, ?_⟩
    rw [holders_along hbefore fun turn hturn => hparts turn (List.mem_append_left _ hturn), hfree,
      Nat.zero_add]

theorem exists_stores (hne : requests ≠ []) (hfree : holders (.text email) s.db = 0) :
    ∃ turn ∈ history, stores turn.exchange := by
  -- If nobody is added, the email is free at every turn of the first signup, which then adds its user.
  by_contra hnone
  obtain ⟨p, hp⟩ : ∃ p, requests[0]? = some p :=
    ⟨_, List.getElem?_eq_getElem (List.length_pos_iff.mpr hne)⟩
  obtain ⟨signup, x, rfl, hscript, -⟩ := script_of_race hrequests hrace hp
  have hstill : ∀ {y : Exchange}, y ∈ turnsAt 0 history → ∃ s₁ s₂,
      Enforces e UniqueEmails s₁ y.effect y.answer s₂ ∧ holders (.text signup.email) s₁.db = 0 := by
    intro y hy
    obtain ⟨before, after, hsplit⟩ := List.append_of_mem (mem_turnsAt_iff.mp hy)
    obtain ⟨s₁, s₂, hanswer, hholders⟩ := holders_before hrequests hrace hfree hsplit
    refine ⟨s₁, s₂, hanswer, hholders.trans (List.countP_eq_zero.mpr ?_)⟩
    intro turn hturn hstores
    exact hnone ⟨turn, by rw [hsplit]; exact List.mem_append_left _ hturn, hstores⟩
  generalize hturns : turnsAt 0 history = script at hscript hstill
  cases hscript with
  | taken =>
    obtain ⟨s₁, s₂, hlook, hzero⟩ := hstill List.mem_cons_self
    obtain ⟨-, found, hfound, hiff⟩ := enforces_look hlook
    cases hfound
    cases hiff.mpr hzero
  | refused =>
    obtain ⟨s₁, s₂, hinsertion, hzero⟩ := hstill (List.mem_of_getLast? rfl)
    rcases enforces_insertion hinsertion with ⟨_, _, hok, -⟩ | ⟨_, -, -, hsome⟩
    · cases hok
    · exact hsome hzero
  | stored _ =>
    obtain ⟨y, hy, hstores⟩ : ∃ y ∈ turnsAt 0 history, stores y := by
      rw [hturns]
      exact ⟨_, List.mem_of_getLast? rfl, by simp [stores, User.insertion]⟩
    exact hnone ⟨_, mem_turnsAt_iff.mp hy, hstores⟩

theorem countP_stores (hne : requests ≠ []) (hindex : UniqueEmails s.db)
    (hfree : holders (.text email) s.db = 0) : history.countP (stores ·.exchange) = 1 := by
  have hcount := holders_along hrace.along (isPart_of_race hrequests hrace)
  have hle := uniqueEmails_along hrace.along hindex (.text email) (by simp)
  have hpos := List.countP_pos_iff.mpr (exists_stores hrequests hrace hne hfree)
  omega

end Race

theorem exists_unique_stores {history : List Turn} (hone : history.countP (stores ·.exchange) = 1) :
    ∃ winner ∈ history, stores winner.exchange ∧
      ∀ turn ∈ history, stores turn.exchange → turn.place = winner.place := by
  rw [List.countP_eq_length_filter] at hone
  obtain ⟨winner, hwinner⟩ := List.length_eq_one_iff.mp hone
  have hfilter : ∀ turn, turn ∈ history.filter (stores ·.exchange) ↔ turn = winner := by
    intro turn
    rw [hwinner, List.mem_singleton]
  obtain ⟨hmem, hstores⟩ := List.mem_filter.mp ((hfilter winner).mpr rfl)
  refine ⟨winner, hmem, hstores, ?_⟩
  intro turn hturn hadd
  exact congrArg Turn.place ((hfilter turn).mp (List.mem_filter.mpr ⟨hturn, hadd⟩))

/-- Of several valid signups at the same time with one email that nobody has, exactly one succeeds and adds
the one user with this email. Every other signup is answered with the same status and the same body. -/
theorem signups_race {e : Engine} {s s' : Storage} {email : String} {requests : List (Int × HttpRequest)}
    {history : List Turn} {responses : List HttpResponse} (hne : requests ≠ [])
    (hrequests : ∀ p ∈ requests, site.SignsUp email p.1 p.2) (hindex : UniqueEmails s.db)
    (hfree : holders (.text email) s.db = 0)
    (hrace : Race (Enforces e UniqueEmails) s (requests.map fun p => site.respond p.1 p.2) history s'
      responses) :
    responses.length = requests.length ∧ holders (.text email) s'.db = 1 ∧
      ∃ (winner : Nat) (response : HttpResponse), responses[winner]? = some response ∧
        response.status = 201 ∧
        ∀ (place : Nat) (response : HttpResponse), place ≠ winner → responses[place]? = some response →
          response.status = 409 ∧
            response.body = (HttpResponse.ofError (.conflict emailTakenMessage)).body := by
  have hone := countP_stores hrequests hrace hne hindex hfree
  have hlength := hrace.length_eq
  rw [List.length_map] at hlength
  refine ⟨hlength, ?_, ?_⟩
  · rw [holders_along hrace.along (isPart_of_race hrequests hrace), hfree, hone]
  · obtain ⟨winner, hmem, hstores, hunique⟩ := exists_unique_stores hone
    obtain ⟨p, hp⟩ := hrace.exists_call hmem
    refine ⟨winner.place, ?_⟩
    obtain ⟨signup, x, -, hscript, hresponse⟩ := script_of_race hrequests hrace hp
    -- The place of the one turn that adds a user is the one that succeeds, and no other place has one.
    rcases hscript.succeeds_or_refused with ⟨reply, rfl, hstatus, -⟩ | ⟨-, hnone⟩
    · refine ⟨_, hresponse, (status_delivered_ok reply).trans hstatus, ?_⟩
      intro place response hplace hother
      have hlt := (List.getElem?_eq_some_iff.mp hother).1
      obtain ⟨q, hq⟩ : ∃ q, requests[place]? = some q := ⟨_, List.getElem?_eq_getElem (hlength ▸ hlt)⟩
      obtain ⟨-, hmethod, -, -⟩ := hrequests q (List.mem_of_getElem? hq)
      obtain ⟨signup', x', -, hscript', hresponse'⟩ := script_of_race hrequests hrace hq
      cases hresponse'.symm.trans hother
      rcases hscript'.succeeds_or_refused with ⟨_, -, -, y, hy, hy'⟩ | ⟨rfl, -⟩
      · exact absurd (hunique _ (mem_turnsAt_iff.mp hy) hy') hplace
      · exact ⟨status_delivered_error _, body_delivered_error hmethod _⟩
    · exact absurd hstores (hnone _ (exchange_mem_turnsAt hmem))

/-! ## Two signups that both look first -/

theorem plays_respond (hplace : Place.ofPath? r.path = some (.unguarded .signup))
    (hmethod : r.method = .post) {script : List Exchange} {x : Except Refusal Reply}
    (hplays : (User.Endpoint.signup (site.visit now r)).run.Plays script x) :
    (site.respond now r).Plays script (site.delivered r (x.map .ofReply)) := by
  rw [respond_signup hplace hmethod]
  exact Task.plays_bind_iff.mpr ⟨script, [], x, by simp, hplays, .done _⟩

theorem exists_obeys_insertion {id : String} {key : Value} (hid : castUuid (.text id) = .ok key)
    (signup : Signup) (salt : List UInt8) (s : Storage) :
    ∃ user s', Obeys .plain s (.execute (User.insertion signup salt id)) (.ok [user]) s' := by
  obtain ⟨user, db', hrun⟩ : ∃ user db', (Query.insert "users" newColumns newValues false
      (some answered)).run .plain (User.insertion signup salt id).params s.db = .ok ([user], db') := by
    simp only [Query.run, newValues, User.insertion, List.mapM_cons, List.mapM_nil, Operand.bind, argument,
      List.getElem?_cons_zero, List.getElem?_cons_succ, castTo, hid, Engine.plain]
    exact ⟨_, _, rfl⟩
  exact ⟨user, _, (obeys_execute_iff read?_insertion).mpr ⟨_, db', hrun, rfl, rfl⟩⟩

def adaText : String :=
  "\x7b\"name\":\"Ada\",\"email\":\"ada@example.edu\",\"password\":\"secret\",\"university\":\"U\"," ++
    "\"major\":\"M\",\"graduationYear\":\"2026\"\x7d"

def adaBody : Value :=
  .record [("name", .text "Ada"), ("email", .text "ada@example.edu"), ("password", .text "secret"),
    ("university", .text "U"), ("major", .text "M"), ("graduationYear", .text "2026")]

def ada : Signup := ⟨"Ada", "ada@example.edu", "secret", "U", "M", 2026, none, none⟩

def adaRequest : HttpRequest :=
  ⟨.post, "/api/auth/signup", [("content-type", "application/json")], adaText.toUTF8⟩

def small : Site := ⟨⟨"secret", 3600, by decide⟩, 1024, .every, "/uploads"⟩

theorem signupForm_adaBody : signupForm.run adaBody = .ok (some ada) := rfl

theorem jsonBody_ada : (small.visit 0 adaRequest).jsonBody = .ok adaBody := by
  have htext : Utf8.leading adaRequest.body.data.toList = adaText.toList := by decide
  have hread : Json.readLeading? adaText.toList = some adaBody := by cbv
  exact Handler.jsonBody_of_read (by decide) (by decide) htext hread

theorem signsUp_ada : small.SignsUp ada.email 0 adaRequest where
  place := by decide
  method := rfl
  form := ⟨adaBody, ada, jsonBody_ada, signupForm_adaBody, rfl⟩
  expiry := by decide

/-- Both signups find nobody with the email, and the insertion of the second one is refused. -/
theorem exists_signups :
    ∃ (s' : Storage) (history : List Turn) (responses : List HttpResponse),
      Race (Enforces .plain UniqueEmails) (Storage.empty "/uploads")
        ([((0 : Int), adaRequest), (0, adaRequest)].map fun p => small.respond p.1 p.2) history s' responses := by
  obtain ⟨one, two, hone, htwo, hnew⟩ := exists_two_ids
  let start : Storage := { Storage.empty "/uploads" with issued := [.text two, .text one] }
  obtain ⟨user, s₁, hadd⟩ := exists_obeys_insertion hone ada [] start
  obtain ⟨user', s₂, hadd'⟩ := exists_obeys_insertion htwo ada [] s₁
  obtain ⟨hholders, added, key, hadded, hid⟩ := obeys_insertion hadd
  cases hadded
  have hempty : UniqueEmails (Storage.empty "/uploads").db := fun email _ => Nat.zero_le 1
  have hunique : UniqueEmails s₁.db := by
    intro email _
    have hzero : holders email start.db = 0 := rfl
    rw [hholders, hzero]
    split <;> simp
  have hbroken : ¬ UniqueEmails s₂.db := by
    intro h
    have hle := h (.text ada.email) (by simp)
    rw [(obeys_insertion hadd').1, hholders, if_pos rfl] at hle
    omega
  have hlook : Enforces .plain UniqueEmails (Storage.empty "/uploads") (.execute (look ada.email))
      (.ok []) _ := .obeys (obeys_look_free rfl) hempty
  let refusal : Except DatabaseError (List Record) := .error (.duplicate "users_email_key")
  have halong : Along (Enforces .plain UniqueEmails) (Storage.empty "/uploads")
      (inStep (attempt ada [] one (.ok [user])) (attempt ada [] two refusal)) s₁ :=
    .cons hlook <| .cons hlook <|
      .cons (.obeys ⟨.freshSalt _ [], trivial⟩ hempty) <|
      .cons (.obeys ⟨.freshSalt _ [], trivial⟩ hempty) <|
      .cons (.obeys ⟨.freshId _ hone List.not_mem_nil, trivial⟩ hempty) <|
      .cons (.obeys ⟨.freshId _ htwo hnew, trivial⟩ hempty) <|
      .cons (.obeys hadd hunique) <| .cons (.refuses _ hunique hadd' hbroken) (.nil _)
  let v := small.visit 0 adaRequest
  have hexpiry : (v.keys.expiry? v.now).isSome := signsUp_ada.expiry
  obtain ⟨reply, -, hrun⟩ := run_welcome hid hexpiry ada.email
  have hplays := plays_attempt jsonBody_ada signupForm_adaBody hrun [] one
  have hrun' : (welcome v ada.email refusal).run = .done (.error taken) := rfl
  have hplays' := plays_attempt jsonBody_ada signupForm_adaBody hrun' [] two
  have hanswer := plays_respond signsUp_ada.place signsUp_ada.method hplays
  have hanswer' := plays_respond signsUp_ada.place signsUp_ada.method hplays'
  have hrace := race_inStep (by rfl) halong hanswer hanswer'
  exact ⟨s₁, _, _, hrace⟩

/-- One of two signups that both find nobody with their email succeeds. -/
theorem signups_race_overlap :
    ∃ (s' : Storage) (history : List Turn) (responses : List HttpResponse),
      Race (Enforces .plain UniqueEmails) (Storage.empty "/uploads")
        ([((0 : Int), adaRequest), (0, adaRequest)].map fun p => small.respond p.1 p.2) history s' responses ∧
      responses.length = 2 ∧ holders (.text ada.email) s'.db = 1 ∧
      ∃ (winner : Nat) (response : HttpResponse), responses[winner]? = some response ∧
        response.status = 201 ∧
        ∀ (place : Nat) (response : HttpResponse), place ≠ winner → responses[place]? = some response →
          response.status = 409 ∧
            response.body = (HttpResponse.ofError (.conflict emailTakenMessage)).body := by
  obtain ⟨s', history, responses, hrace⟩ := exists_signups
  have hrequests : ∀ p ∈ [((0 : Int), adaRequest), (0, adaRequest)], small.SignsUp ada.email p.1 p.2 := by
    intro p hp
    rcases List.mem_pair.mp hp with rfl | rfl
    · exact signsUp_ada
    · exact signsUp_ada
  have hindex : UniqueEmails (Storage.empty "/uploads").db := fun _ _ => Nat.zero_le 1
  exact ⟨s', history, responses, hrace, signups_race (List.cons_ne_nil _ _) hrequests hindex rfl hrace⟩

end JobTrail.Site
