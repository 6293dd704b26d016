import JobTrail.Proofs.Gate.Admission
import JobTrail.Proofs.Password
import JobTrail.Proofs.Text.Casing
import JobTrail.Proofs.Value.Plain
import JobTrail.Proofs.Value.Record
import JobTrail.User.Endpoints

/-!
# What a login tells

A login looks up the row behind an email and is settled by it. If the row does not verify the password, for
whatever reason, or if there is no row, the answer is one and the same. If it does, the answer is made of the
row without its stored password, so of two rows that differ in nothing else it is the same again.
-/

set_option maxRecDepth 8192

namespace JobTrail.User

variable {keys : TokenKeys} {now : Int} {v : Visit} {login : Login} {row : Record} {rows : List Record}

/-! ## Verified rows -/

/-- The row has a text for its stored password, and it stores the password of the login. -/
def Unlocks (login : Login) (row : Record) : Prop :=
  ∃ hash, row.get? "password_hash" = some (.text hash) ∧ verifyPassword login.password hash = true

/-- The first row found verifies the credentials. -/
def Verified (login : Login) (rows : List Record) : Prop := ∃ row, rows.head? = some row ∧ Unlocks login row

theorem verifyPassword_empty (password : String) : verifyPassword password "" = false := rfl

/-- Without a text for the stored password nothing verifies. -/
theorem verifyPassword_storedPassword_iff {password : String} :
    verifyPassword password (storedPassword row) = true ↔
      ∃ hash, row.get? "password_hash" = some (.text hash) ∧ verifyPassword password hash = true := by
  have hnothing : ¬ verifyPassword password "" = true := by simp [verifyPassword_empty]
  unfold storedPassword
  rcases row.get? "password_hash" with _ | (_ | _ | _ | hash | _ | _ | _)
  case some.text => simp [Value.text?]
  all_goals simpa [Value.text?] using hnothing

/-! ## Settling a login -/

def lookUp (email : String) : Statement :=
  ⟨"SELECT id, name, email, password_hash, university, major, graduation_year, "
    ++ "linkedin_profile, weekly_goal, created_at FROM users WHERE email = $1", [.text email]⟩

/-- What is left of a login once the look-up is answered. -/
def settle (v : Visit) (login : Login) (rows : List Record) : Handler Reply :=
  match rows.head? with
  | none => Handler.refuse invalidCredentials
  | some row =>
    if verifyPassword login.password (storedPassword row) then do
      return Reply.ok (.record (← session v (row.erase "password_hash") login.email))
    else Handler.refuse invalidCredentials

theorem run_login {body : Value} (hbody : v.jsonBody = .ok body)
    (hform : loginForm.run body = .ok (some login)) :
    (Endpoint.login v).run = .ask (.execute (lookUp login.email)) fun
      | .error err => .done (.error (.api err.toApi))
      | .ok rows => (settle v login rows).run := by
  unfold Endpoint.login
  have hjson : v.json.run = .done (.ok body) := by
    rw [Visit.json, hbody]
    rfl
  have hcheck : (Handler.check loginForm "Invalid login" body).run = .done (.ok login) := by
    rw [Handler.check, hform]
    rfl
  rw [Handler.run_andThen_ok hjson, Handler.run_andThen_ok hcheck]
  refine congrArg (Task.ask (.execute (lookUp login.email))) (funext fun found => ?_)
  rcases found with (_ | _ | _ | _) | _ | ⟨row, rows⟩
  all_goals rfl

/-- A user as the answer to its login shows it: every column but the stored password. -/
def shown (row : Record) : Record := (row.erase "password_hash").toCamel

def greeting (user : Record) (token : String) : Reply :=
  Reply.ok (.record [("user", .record user), ("token", .text token)])

/-- What a login comes to. A verified row is greeted, unless its id is no text or there is no expiry for its
token, and a row that does not verify is refused as nobody is. -/
inductive Settles (keys : TokenKeys) (now : Int) (login : Login) (rows : List Record) :
    Except Refusal Reply → Prop where
  | refused : ¬ Verified login rows → Settles keys now login rows (.error (.api invalidCredentials))
  | nameless {row : Record} : rows.head? = some row → Unlocks login row → (∀ id, row.get? "id" ≠ some (.text id)) →
      Settles keys now login rows (.error (.api (.internal "User row has no id")))
  | endless {row : Record} {id : String} : rows.head? = some row → Unlocks login row →
      row.get? "id" = some (.text id) → keys.expiry? now = none →
      Settles keys now login rows (.error (.api (AuthError.tokenGeneration "expiry out of range").toApi))
  | greeted {row : Record} {id : String} {expires : Int} : rows.head? = some row → Unlocks login row →
      row.get? "id" = some (.text id) → keys.expiry? now = some expires →
      Settles keys now login rows (.ok (greeting (shown row) (keys.sign ⟨id, login.email, now, expires⟩)))

theorem settle_refuses (h : ¬ Verified login rows) :
    (settle v login rows).run = .done (.error (.api invalidCredentials)) := by
  unfold settle
  cases hrow : rows.head? with
  | none => rfl
  | some row =>
    have hnot : ¬ verifyPassword login.password (storedPassword row) = true :=
      fun hverifies => h ⟨row, hrow, verifyPassword_storedPassword_iff.mp hverifies⟩
    dsimp only
    rw [if_neg hnot]
    rfl

theorem settle_unlocked (hrow : rows.head? = some row) (h : Unlocks login row) :
    settle v login rows = do
      return Reply.ok (.record (← session v (row.erase "password_hash") login.email)) := by
  unfold settle
  rw [hrow]
  dsimp only
  rw [if_pos (verifyPassword_storedPassword_iff.mpr h)]

theorem get?_id_erase (row : Record) : (row.erase "password_hash").get? "id" = row.get? "id" :=
  Record.get?_erase_of_ne (by decide)

/-- Whatever a look-up finds, it settles the login. -/
theorem exists_settles (keys : TokenKeys) (now : Int) (login : Login) (rows : List Record) :
    ∃ x, Settles keys now login rows x := by
  by_cases hverified : Verified login rows
  · obtain ⟨row, hrow, hunlocks⟩ := hverified
    by_cases hid : ∃ id, row.get? "id" = some (.text id)
    · obtain ⟨id, hid⟩ := hid
      cases hexpiry : keys.expiry? now with
      | none => exact ⟨_, .endless hrow hunlocks hid hexpiry⟩
      | some expires => exact ⟨_, .greeted hrow hunlocks hid hexpiry⟩
    · exact ⟨_, .nameless hrow hunlocks (not_exists.mp hid)⟩
  · exact ⟨_, .refused hverified⟩

/-- A login is settled without asking for anything more. -/
theorem Settles.run {x : Except Refusal Reply} (h : Settles v.keys v.now login rows x) :
    (settle v login rows).run = .done x := by
  cases h with
  | refused hnot => exact settle_refuses hnot
  | @nameless row hrow hunlocks hid =>
    have hnone : (row.get? "id").bind Value.text? = none := by
      refine Option.bind_eq_none_iff.mpr fun value hvalue => ?_
      cases value with
      | text id => exact absurd hvalue (hid id)
      | _ => rfl
    rw [settle_unlocked hrow hunlocks, session, get?_id_erase, hnone]
    rfl
  | endless hrow hunlocks hid hexpiry | greeted hrow hunlocks hid hexpiry =>
    rw [settle_unlocked hrow hunlocks, session, get?_id_erase, hid]
    dsimp only [Option.bind_some, Value.text?, TokenKeys.issue?]
    rw [hexpiry]
    rfl

/-! ## What is shown of a row -/

/-- A shown user has an entry for each column but the stored password. -/
theorem mem_keys_shown (distinct : row.keys.Nodup) {key : String} :
    key ∈ (shown row).keys ↔ ∃ column ∈ row.keys, column ≠ "password_hash" ∧ Casing.camel column = key := by
  have hkeys := Record.mem_keys_ofList
    ((row.erase "password_hash").map fun e => (Casing.camel e.1, e.2.toCamel)) key
  have hnames : ((row.erase "password_hash").map fun e => (Casing.camel e.1, e.2.toCamel)).map (·.1)
      = (row.keys.erase "password_hash").map Casing.camel := by
    rw [← Record.keys_erase, Record.keys, List.map_map, List.map_map]
    rfl
  rw [hnames, List.mem_map] at hkeys
  refine hkeys.trans ?_
  simp only [distinct.mem_erase_iff]
  constructor
  · rintro ⟨column, ⟨hne, hmem⟩, rfl⟩
    exact ⟨column, hmem, hne, rfl⟩
  · rintro ⟨column, hmem, hne, rfl⟩
    exact ⟨column, ⟨hne, hmem⟩, rfl⟩

theorem camel_ne_password_hash (key : String) : Casing.camel key ≠ "password_hash" := by
  intro h
  have hunmarked := Casing.unmarked_camelChars key.toList
  have hchars : Casing.camelChars key.toList = "password".toList ++ '_' :: 'h' :: "ash".toList := by
    rw [← String.toList_ofList (l := Casing.camelChars key.toList), ← Casing.camel, h]
    rfl
  rw [hchars, Casing.Unmarked, List.isChain_append] at hunmarked
  exact (List.isChain_cons_cons.mp hunmarked.2.1).1 (by decide)

theorem eq_of_camel_passwordHash {key : String} (h : Casing.camel key = "passwordHash") :
    key = "password_hash" ∨ key = "passwordHash" := by
  have hchars : Casing.camelChars key.toList = "password".toList ++ 'h'.toUpper :: "ash".toList := by
    rw [← String.toList_ofList (l := Casing.camelChars key.toList), ← Casing.camel, h]
    rfl
  rcases Casing.eq_of_camelChars_words (by simp) (by decide) (by simp) hchars with hkey | hkey
  · exact .inl (String.toList_injective hkey)
  · exact .inr (String.toList_injective hkey)

/-- Neither the name of the stored password nor its spelling on the wire is shown, unless a column of its own
has the latter for its name. -/
theorem notMem_keys_shown (distinct : row.keys.Nodup) :
    "password_hash" ∉ (shown row).keys ∧
      ("passwordHash" ∈ (shown row).keys → "passwordHash" ∈ row.keys) := by
  constructor
  · intro h
    obtain ⟨column, -, -, hcamel⟩ := (mem_keys_shown distinct).mp h
    exact camel_ne_password_hash column hcamel
  · intro h
    obtain ⟨column, hmem, hne, hcamel⟩ := (mem_keys_shown distinct).mp h
    rcases eq_of_camel_passwordHash hcamel with rfl | rfl
    · exact absurd rfl hne
    · exact hmem

end JobTrail.User

/-! ## The answer to a login -/

namespace JobTrail.Site

open User

variable {site site' : Site} {now now' : Int} {r r' : HttpRequest} {login login' : Login}
  {rows : List Record} {response : HttpResponse}

/-- A request to log in with a valid form. -/
structure LogsIn (site : Site) (now : Int) (r : HttpRequest) (login : Login) : Prop where
  place : Place.ofPath? r.path = some (.unguarded .login)
  method : r.method = .post
  form : ∃ body, (site.visit now r).jsonBody = .ok body ∧ loginForm.run body = .ok (some login)

/-- The response to a login if its look-up finds these rows. -/
def AnswersLogin (site : Site) (now : Int) (r : HttpRequest) (login : Login) (rows : List Record)
    (response : HttpResponse) : Prop :=
  (site.respond now r).Plays [⟨.execute (lookUp login.email), .ok rows⟩] response

theorem LogsIn.plays_iff (h : site.LogsIn now r login) :
    site.AnswersLogin now r login rows response ↔ ∃ x, (settle (site.visit now r) login rows).run.Plays [] x ∧
      response = site.delivered r (x.map .ofReply) := by
  obtain ⟨hplace, hmethod, body, hbody, hform⟩ := h
  have hrespond : site.respond now r = (User.Endpoint.login (site.visit now r)).run >>= fun x =>
      pure (site.delivered r (x.map .ofReply)) := respond_posted hplace hmethod rfl
  rw [AnswersLogin, hrespond, run_login hbody hform]
  constructor
  · intro hplays
    cases hplays with
    | ask hrest =>
      obtain ⟨first, rest, x, hscript, hsettle, hdone⟩ := Task.plays_bind_iff.mp hrest
      obtain ⟨rfl, rfl⟩ := Task.plays_done_iff.mp hdone
      obtain ⟨rfl, -⟩ := List.append_eq_nil_iff.mp hscript.symm
      exact ⟨x, hsettle, rfl⟩
  · rintro ⟨x, hsettle, rfl⟩
    exact .ask (Task.plays_bind_iff.mpr ⟨[], [], x, rfl, hsettle, .done _⟩)

/-- A login is answered with what it comes to, and with nothing else. -/
theorem LogsIn.answers_iff (h : site.LogsIn now r login) {x : Except Refusal Reply}
    (hsettles : Settles site.keys now login rows x) :
    site.AnswersLogin now r login rows response ↔ response = site.delivered r (x.map .ofReply) := by
  have hrun : (settle (site.visit now r) login rows).run = .done x := hsettles.run
  rw [h.plays_iff, hrun]
  constructor
  · rintro ⟨y, hplays, rfl⟩
    obtain ⟨-, rfl⟩ := Task.plays_done_iff.mp hplays
    rfl
  · rintro rfl
    exact ⟨x, .done x, rfl⟩

theorem LogsIn.exists_answer (h : site.LogsIn now r login) (rows : List Record) :
    ∃ response, site.AnswersLogin now r login rows response := by
  obtain ⟨x, hsettles⟩ := exists_settles site.keys now login rows
  exact ⟨_, (h.answers_iff hsettles).mpr rfl⟩

/-- The response has the status and the body of what a handler comes to. -/
def Tells : Except Refusal Reply → HttpResponse → Prop
  | .ok reply, response => response.status = reply.status ∧ response.body = (HttpResponse.ofReply reply).body
  | .error refusal, response =>
    response.status = refusal.response.status ∧ response.body = refusal.response.body

theorem LogsIn.tells (h : site.LogsIn now r login) {x : Except Refusal Reply}
    (hsettles : Settles site.keys now login rows x) (hanswers : site.AnswersLogin now r login rows response) :
    Tells x response := by
  obtain rfl := (h.answers_iff hsettles).mp hanswers
  cases x with
  | ok reply => exact ⟨status_delivered_ok reply, body_delivered_ok h.method _⟩
  | error refusal => exact ⟨status_delivered_error refusal, body_delivered_error h.method refusal⟩

/-- What two logins tell, whatever their look-ups find. Each is answered. If neither verifies its credentials,
they are answered alike. A login is greeted, with a token for the id of the first row found, exactly if this row
verifies its credentials, has a text for its id, and the token an expiry; without one of the three it is told a
fixed error. Two verified rows that differ in nothing but the stored password are greeted as the same user, who is
shown without it. -/
theorem logins_tell_success_only (h : site.LogsIn now r login) (h' : site'.LogsIn now' r' login') :
    (∀ rows, ∃ response, site.AnswersLogin now r login rows response) ∧
    (∀ rows rows' response response', ¬ Verified login rows → ¬ Verified login' rows' →
      site.AnswersLogin now r login rows response → site'.AnswersLogin now' r' login' rows' response' →
        response.status = response'.status ∧ response.body = response'.body) ∧
    (∀ rows response, site.AnswersLogin now r login rows response →
      ∃ x, Settles site.keys now login rows x ∧ Tells x response) ∧
    ∀ row row' rest rest' id expires expires' response response', row.keys.Nodup → row'.keys.Nodup →
      row.erase "password_hash" = row'.erase "password_hash" → row.get? "id" = some (.text id) →
      Unlocks login row → Unlocks login' row' →
      site.keys.expiry? now = some expires → site'.keys.expiry? now' = some expires' →
      site.AnswersLogin now r login (row :: rest) response →
      site'.AnswersLogin now' r' login' (row' :: rest') response' →
        response.status = 200 ∧ response'.status = 200 ∧
        response.body = (HttpResponse.ofReply
          (greeting (shown row) (site.keys.sign ⟨id, login.email, now, expires⟩))).body ∧
        response'.body = (HttpResponse.ofReply
          (greeting (shown row) (site'.keys.sign ⟨id, login'.email, now', expires'⟩))).body ∧
        "password_hash" ∉ (shown row).keys ∧
        ("passwordHash" ∈ (shown row).keys → "passwordHash" ∈ row.keys ∧ "passwordHash" ∈ row'.keys) := by
  refine ⟨h.exists_answer, ?_, ?_, ?_⟩
  · intro rows rows' response response' hnot hnot' hanswers hanswers'
    obtain ⟨hstatus, hbody⟩ := h.tells (.refused hnot) hanswers
    obtain ⟨hstatus', hbody'⟩ := h'.tells (.refused hnot') hanswers'
    exact ⟨hstatus.trans hstatus'.symm, hbody.trans hbody'.symm⟩
  · intro rows response hanswers
    obtain ⟨x, hsettles⟩ := exists_settles site.keys now login rows
    exact ⟨x, hsettles, h.tells hsettles hanswers⟩
  · intro row row' rest rest' id expires expires' response response' distinct distinct' hsame hid hunlocks
      hunlocks' hexpiry hexpiry' hanswers hanswers'
    have hid' : row'.get? "id" = some (.text id) := by
      rw [← get?_id_erase, ← hsame, get?_id_erase, hid]
    have hshown : shown row = shown row' := congrArg Record.toCamel hsame
    obtain ⟨hstatus, hbody⟩ := h.tells (.greeted rfl hunlocks hid hexpiry) hanswers
    obtain ⟨hstatus', hbody'⟩ := h'.tells (.greeted rfl hunlocks' hid' hexpiry') hanswers'
    obtain ⟨hcolumn, hwire⟩ := notMem_keys_shown distinct
    obtain ⟨-, hwire'⟩ := notMem_keys_shown distinct'
    rw [← hshown] at hbody' hwire'
    exact ⟨hstatus, hstatus', hbody, hbody', hcolumn, fun hkey => ⟨hwire hkey, hwire' hkey⟩⟩

/-! ## Logins of one user -/

def graceText : String := "\x7b\"email\":\"grace@example.edu\",\"password\":\"secret\"\x7d"

def graceBody : Value := .record [("email", .text "grace@example.edu"), ("password", .text "secret")]

def grace : Login := ⟨"grace@example.edu", "secret"⟩

def graceRequest : HttpRequest :=
  ⟨.post, "/api/auth/login", [("content-type", "application/json")], graceText.toUTF8⟩

def compact : Site := ⟨⟨"compact", 3600, by decide⟩, 1024, .every, "/uploads"⟩

theorem logsIn_grace : compact.LogsIn 0 graceRequest grace where
  place := by decide
  method := rfl
  form := by
    have htext : Utf8.leading graceRequest.body.data.toList = graceText.toList := by decide
    have hread : Json.readLeading? graceText.toList = some graceBody := by cbv
    exact ⟨graceBody, Handler.jsonBody_of_read (by decide) (by decide) htext hread, rfl⟩

def graceRow (salt : List UInt8) : Record :=
  [("id", .text "7"), ("password_hash", .text (hashPassword salt grace.password)), ("graduation_year", .ofInt 2027)]

theorem unlocks_graceRow {salt : List UInt8} (hsalt : StoredPassword.UsableSalt salt) :
    Unlocks grace (graceRow salt) := ⟨_, rfl, verifyPassword_hashPassword hsalt grace.password⟩

theorem nodup_keys_graceRow (salt : List UInt8) : (graceRow salt).keys.Nodup := by
  have hkeys : (graceRow salt).keys = ["id", "password_hash", "graduation_year"] := rfl
  rw [hkeys]
  decide

theorem erase_graceRow (salt : List UInt8) :
    (graceRow salt).erase "password_hash" = [("id", .text "7"), ("graduation_year", .ofInt 2027)] := rfl

theorem shown_graceRow (salt : List UInt8) :
    shown (graceRow salt) = [("id", .text "7"), ("graduationYear", .ofInt 2027)] := by
  rw [shown, erase_graceRow]
  decide

def oldSalt : List UInt8 := List.replicate 16 0

def newSalt : List UInt8 := List.replicate 16 1

theorem usableSalt_oldSalt : StoredPassword.UsableSalt oldSalt := ⟨by decide, by decide⟩

theorem usableSalt_newSalt : StoredPassword.UsableSalt newSalt := ⟨by decide, by decide⟩

theorem hashPassword_oldSalt_ne (password : String) : hashPassword oldSalt password ≠ hashPassword newSalt password :=
  fun he => absurd (salt_eq_of_hashPassword_eq usableSalt_oldSalt usableSalt_newSalt he) (by decide)

/-- A login that finds nobody and one that finds a row without a stored password are refused alike. Two that find
the password stored under different salts are greeted alike. -/
theorem logins_tell_success_only_grace :
    (∃ response response', compact.AnswersLogin 0 graceRequest grace [] response ∧
      compact.AnswersLogin 0 graceRequest grace [[("id", .text "7")]] response' ∧
        response.status = response'.status ∧ response.body = response'.body) ∧
    ∃ response response', hashPassword oldSalt grace.password ≠ hashPassword newSalt grace.password ∧
      compact.AnswersLogin 0 graceRequest grace [graceRow oldSalt] response ∧
      compact.AnswersLogin 0 graceRequest grace [graceRow newSalt] response' ∧
        response.status = 200 ∧ response'.status = 200 ∧ response.body = response'.body ∧
        response.body = (HttpResponse.ofReply (greeting [("id", .text "7"), ("graduationYear", .ofInt 2027)]
          (compact.keys.sign ⟨"7", grace.email, 0, 3600⟩))).body := by
  obtain ⟨hanswered, halike, -, hgreeted⟩ := logins_tell_success_only logsIn_grace logsIn_grace
  constructor
  · obtain ⟨response, hresponse⟩ := hanswered []
    obtain ⟨response', hresponse'⟩ := hanswered [[("id", .text "7")]]
    have hnobody : ¬ Verified grace [] := by
      rintro ⟨row, hrow, -⟩
      cases hrow
    have hbare : ¬ Verified grace [[("id", .text "7")]] := by
      rintro ⟨row, hrow, hash, hhash, -⟩
      cases hrow
      cases hhash
    exact ⟨response, response', hresponse, hresponse',
      halike _ _ _ _ hnobody hbare hresponse hresponse'⟩
  · obtain ⟨response, hresponse⟩ := hanswered [graceRow oldSalt]
    obtain ⟨response', hresponse'⟩ := hanswered [graceRow newSalt]
    have hsame := (erase_graceRow oldSalt).trans (erase_graceRow newSalt).symm
    have hexpiry : compact.keys.expiry? 0 = some 3600 := by decide
    obtain ⟨hstatus, hstatus', hbody, hbody', -⟩ := hgreeted _ _ [] [] "7" 3600 3600 response response'
      (nodup_keys_graceRow oldSalt) (nodup_keys_graceRow newSalt) hsame rfl
      (unlocks_graceRow usableSalt_oldSalt) (unlocks_graceRow usableSalt_newSalt) hexpiry hexpiry hresponse hresponse'
    rw [shown_graceRow] at hbody hbody'
    exact ⟨response, response', hashPassword_oldSalt_ne grace.password, hresponse, hresponse', hstatus, hstatus',
      hbody.trans hbody'.symm, hbody⟩

end JobTrail.Site
