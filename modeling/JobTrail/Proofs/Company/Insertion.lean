import JobTrail.Proofs.Company.Creation
import JobTrail.Proofs.Gate.Handlers
import JobTrail.Proofs.Service.Composition
import JobTrail.Proofs.Value.Leading

/-!
# Companies that are made whole

What a creation asks for when nothing fails: whether the name is free, the company, and one insertion for each
element of each list, in the order in which they were sent. An insertion is read by its columns, as the database
reads it, so what it hands to a column does not depend on where the parameter stands. The answer shows the row
with the lists as they were sent.
-/

set_option maxRecDepth 8192

namespace JobTrail

open Sql Storage

/-! ## What an insertion hands over -/

/-- What an operand is for a new row, before it is cast. -/
def Sql.Operand.handed? (params : List Value) : Operand → Option Value
  | parameter place _ => params[place]?
  | constant v => some v
  | orColumn .. => none

/-- What an insertion into a table hands to a column. -/
def Statement.handed? (st : Statement) (table column : String) : Option Value :=
  match read? st.sql with
  | some (.insert t columns values _ _) =>
    if t = table then ((columns.zip values).lookup column).bind (Operand.handed? st.params) else none
  | _ => none

theorem Statement.handed?_insert {sql table column : String} {columns : List String} {values : List Operand}
    {skipPresent : Bool} {returning : Option Columns} {o : Operand}
    (hread : read? sql = some (.insert table columns values skipPresent returning))
    (hcolumn : (columns.zip values).lookup column = some o) (params : List Value) :
    handed? ⟨sql, params⟩ table column = o.handed? params := by
  simp [handed?, hread, hcolumn]

/-- No request of the script failed. -/
def ErrorFree (script : List Exchange) : Prop := ∀ exchange ∈ script, exchange.failure? .database = none

theorem User.FailsAt.not_errorFree {script : List Exchange} {failed : Statement} {err : DatabaseError}
    (h : User.FailsAt script failed err) : ¬ ErrorFree script := by
  intro hcalm
  have hnone := hcalm _ (List.mem_of_getLast? h)
  cases hnone

/-- An endpoint that makes one call and answers what it returns asks for what the call asks for. -/
theorem Handler.plays_answered_iff {α β : Type} {script : List Exchange} {m : Service α} {f : α → β}
    {x : Except Refusal β} :
    (do return f (← service m) : Handler β).run.Plays script x ↔
      ∃ y, m.run.Plays script y ∧ x = (y.mapError fun err => .api err.toApi).map f := by
  have hrun : (do return f (← service m) : Handler β).run = m.run.bind fun y =>
      .done ((y.mapError fun err => .api err.toApi).map f) := by
    refine (Task.bind_assoc _ _ _).trans (congrArg m.run.bind (funext fun y => ?_))
    cases y <;> rfl
  rw [hrun, Task.plays_bind_iff]
  constructor
  · rintro ⟨first, rest, y, rfl, hm, hdone⟩
    obtain ⟨rfl, rfl⟩ := Task.plays_done_iff.mp hdone
    exact ⟨y, by simpa using hm, rfl⟩
  · rintro ⟨y, hm, rfl⟩
    exact ⟨script, [], y, by simp, hm, .done _⟩

namespace Company

open Script

variable {e : Engine} {s s' : Storage} {script : List Exchange} {draft : Draft} {t : NestedTable}
  {company element body : Value} {name : String} {row : Record}

/-- An insertion into a nested table hands over the id of the company and, for each column, the field of the
element, which is null where the element has none. -/
structure Inserts (t : NestedTable) (company element : Value) (st : Statement) : Prop where
  company : st.handed? t.table "company_id" = some company
  cells : ∀ cell ∈ t.cells, st.handed? t.table cell.column = some ((element.get? cell.key).getD .null)

theorem inserts_insertion (ht : t ∈ NestedTable.all) (id : String) (company element : Value) :
    Inserts t company element (t.insertion id company element) := by
  have hread := NestedTable.read?_text ht
  constructor
  · exact Statement.handed?_insert hread (NestedTable.lookup_company ht) _
  · intro cell hcell
    obtain ⟨i, hi, rfl⟩ := List.getElem_of_mem hcell
    exact (Statement.handed?_insert hread (NestedTable.lookup_cell ht ⟨i, hi⟩) _).trans
      (NestedTable.params_insertion ⟨i, hi⟩)

/-! ## The statements of a creation -/

theorem statements_add {x : Except ServiceError Unit} (hplays : (t.add company element).run.Plays script x) :
    ∃ id, statements script = [t.insertion id company element] := by
  obtain ⟨id, rest, rfl, hinsertion⟩ := Task.plays_freshId_andThen_iff.mp hplays
  refine ⟨id, ?_⟩
  rcases Task.plays_execute_andThen_iff.mp hinsertion with ⟨rows, last, rfl, hpure⟩ | ⟨failure, rfl, -⟩
  · obtain ⟨rfl, -⟩ := Task.plays_done_iff.mp hpure
    rfl
  · rfl

theorem statements_create {x : Except ServiceError Record} {found : Exchange}
    (hplays : (create draft).run.Plays (found :: script) x) :
    statements (found :: script) = look draft.name :: statements script := by
  rw [create_eq] at hplays
  rcases Task.plays_execute_andThen_iff.mp hplays with ⟨rows, rest, heq, -⟩ | ⟨failure, heq, -⟩
  · cases heq
    rfl
  · cases heq
    rfl

/-- As long as nothing fails, each element is inserted once and in its turn. -/
theorem statements_adds {elements : List (NestedTable × Value)} (hknown : ∀ p ∈ elements, p.1 ∈ NestedTable.all)
    (hplays : (elements.forM fun p => p.1.add company p.2).run.Plays script (.ok ())) :
    List.Forall₂ (fun p st => Inserts p.1 company p.2 st) elements (statements script) := by
  induction elements generalizing script with
  | nil =>
    obtain ⟨rfl, -⟩ := Task.plays_done_iff.mp hplays
    exact .nil
  | cons p elements ih =>
    obtain ⟨hp, hrest⟩ := List.forall_mem_cons.mp hknown
    rcases Task.plays_andThen_iff.mp hplays with ⟨first, rest, ⟨⟩, rfl, hadd, hadds⟩ | ⟨err, -, ⟨⟩⟩
    obtain ⟨id, hfirst⟩ := statements_add hadd
    rw [statements_append, hfirst]
    exact .cons (inserts_insertion hp id company p.2) (ih hrest hadds)

theorem fill_completes {x : Except ServiceError Record}
    (hid : castUuid (row.column "id") = .ok (row.column "id")) (hplays : (fill draft row).run.Plays script x)
    (hfollows : Follows e s script s') (hcalm : ErrorFree script) :
    x = .ok row ∧ Grown e (row.column "id") draft.elements s.db s'.db ∧
      List.Forall₂ (fun p st => Inserts p.1 (row.column "id") p.2 st) draft.elements (statements script) := by
  have hknown : ∀ p ∈ draft.elements, p.1 ∈ NestedTable.all := fun p hp => Draft.mem_all hp
  rcases Task.plays_andThen_iff.mp hplays with ⟨first, rest, ⟨⟩, rfl, hadds, hpure⟩ | ⟨err, hadds, -⟩
  · obtain ⟨rfl, rfl⟩ := Task.plays_done_iff.mp hpure
    rw [List.append_nil] at hfollows ⊢
    rcases follows_adds hknown hid hadds hfollows with ⟨-, hgrown⟩ | ⟨_, _, _, _, _, _, -, -, -, ⟨⟩⟩
    exact ⟨rfl, hgrown, statements_adds hknown hadds⟩
  · rcases follows_adds hknown hid hadds hfollows with ⟨⟨⟩, -⟩ | ⟨_, _, _, _, _, _, -, -, hfails, -⟩
    exact absurd hcalm hfails.not_errorFree

theorem make_completes {x : Except ServiceError Record} (hplays : (make draft).run.Plays script x)
    (hfollows : Follows e s script s') (hcalm : ErrorFree script) :
    ∃ row id nested, x = .ok row ∧ statements script = insertion draft id :: nested ∧
      List.Forall₂ (fun p st => Inserts p.1 (row.column "id") p.2 st) draft.elements nested ∧
      Describes e draft row ∧
      Grown e (row.column "id") draft.elements (s.db.set "companies" (s.db.rows "companies" ++ [row])) s'.db := by
  obtain ⟨id, rest, rfl, hinsertion⟩ := Task.plays_freshId_andThen_iff.mp hplays
  cases hfollows with
  | @cons _ _ _ s₁ _ hfresh hrest =>
    have hsame : s₁.db = s.db := hfresh.freshId
    rcases Task.plays_execute_andThen_iff.mp hinsertion with ⟨rows, last, rfl, hfirst⟩ | ⟨failure, rfl, -⟩
    · rcases hrest.execute_cons read?_insertion with ⟨_, db', ⟨⟩, hrun, hlast⟩ | ⟨_, ⟨⟩, -⟩
      rw [hsame] at hrun
      obtain ⟨row, rfl, hid, hdescribes, rfl⟩ := run_insertion hrun
      change (fill draft row).run.Plays last _ at hfirst
      have hcalm' : ErrorFree last := fun exchange hmem => hcalm exchange (by simp [hmem])
      obtain ⟨hx, hgrown, hnested⟩ := fill_completes hid hfirst hlast hcalm'
      exact ⟨row, id, statements last, hx, rfl, hnested, hdescribes, hgrown⟩
    · have hnone := hcalm _ (List.mem_cons_of_mem _ List.mem_cons_self)
      cases hnone

/-! ## From the body to the answer -/

/-- What a body nests in its company, in the order of the insertions. -/
def submitted (body : Value) : List (NestedTable × Value) :=
  (elements body "events").map (events, ·) ++ (elements body "recommendedCourses").map (courses, ·)
    ++ (elements body "preparationChecklist").map (items, ·)

/-- Null stands for null, and a JSON text for the value that it is read as. -/
inductive Denotes : Value → Value → Prop where
  | null : Denotes .null .null
  | text {text : String} {v : Value} : v ≠ .null → Json.read? text = some v → Denotes (.text text) v

theorem denotes_jsonText {v : Value} (h : v.Fits Json.depthLimit) : Denotes (jsonText v) v := by
  cases v with
  | null => exact .null
  | _ => exact .text nofun (Json.read?_print_of_fits h)

theorem denotes_companyInfo {v : Visit} (hbody : v.jsonBody = .ok body) :
    Denotes (jsonText (.ofOption (body.get? "companyInfo"))) ((body.get? "companyInfo").getD .null) := by
  have hfits := Json.fits_of_jsonBody hbody
  cases hinfo : body.get? "companyInfo" with
  | none => exact .null
  | some info =>
    -- The body is one level deeper than what is in it.
    have hpart : info.Fits 126 := Value.Fits.get? hfits hinfo
    exact denotes_jsonText (hpart.mono (by decide))

/-- The text at a key, taken as it was sent. -/
def textAt? (body : Value) (key : String) : Option String := (present (body.get? key)).bind Value.text?

/-- What a body is a draft of, given its name. -/
def draftOf (body : Value) (name : String) : Draft where
  name := name
  notes := (textAt? body "notes").getD ""
  logo := textAt? body "logo"
  industry := textAt? body "industry"
  info := .ofOption (body.get? "companyInfo")
  events := elements body "events"
  courses := elements body "recommendedCourses"
  checklist := elements body "preparationChecklist"

theorem run_draftForm (hname : trimmedText (body.get? "name") = some name) (hfilled : name ≠ "") :
    draftForm.run body = .ok (some (draftOf body name)) := by
  have hrule : Rule.requiredText (body.get? "name") = some (some name) := by
    simp [Rule.requiredText, Rule.found, hname, hfilled]
  simp only [draftForm, Form.run, Form.check, Form.text, Form.body, bind, pure, hrule, Rule.anyText]
  rfl

theorem plays_post_iff {handler : GuardedPlace.Guarded}
    (hhandler : GuardedPlace.companies.handler? .post = some handler) {caller : Caller} {v : Visit}
    (hbody : v.jsonBody = .ok body) (hform : draftForm.run body = .ok (some draft))
    {x : Except Refusal HttpResponse} :
    (handler caller v).run.Plays script x ↔ ∃ y, (create draft).run.Plays script y ∧
      x = (y.mapError fun err => .api err.toApi).map fun row =>
        HttpResponse.json 201 (.record (created row draft)) := by
  cases hhandler
  have hjson : v.json.run = .done (.ok body) := (Handler.decides_json v).passes body hbody
  have hcheck := (Handler.decides_check draftForm "Company name is required" body).passes draft hform
  rw [GuardedPlace.withBody, Handler.run_andThen_ok hjson, Endpoint.create, bind_assoc,
    Handler.run_andThen_ok hcheck, bind_assoc]
  exact Handler.plays_answered_iff

/-! ## Creations in which nothing fails -/

/-- What a creation under a name asks for: a look for the name, the company with its information, and the
insertions of what is nested in it. -/
inductive Asked (body : Value) (name : String) (company : Value) : List Statement → Prop where
  | intro {made : Statement} {info : Value} {nested : List Statement} :
      made.handed? "companies" "name" = some (.text name) →
      made.handed? "companies" "company_info" = some info →
      Denotes info ((body.get? "companyInfo").getD .null) →
      List.Forall₂ (fun p st => Inserts p.1 company p.2 st) (submitted body) nested →
      Asked body name company (look name :: made :: nested)

theorem Asked.length_eq {asked : List Statement} (h : Asked body name company asked) :
    asked.length = 2 + (elements body "events").length + (elements body "recommendedCourses").length
      + (elements body "preparationChecklist").length := by
  cases h with
  | intro _ _ _ hnested =>
    have hlength := hnested.length_eq
    simp only [submitted, List.length_append, List.length_map] at hlength
    simp only [List.length_cons]
    omega

/-- The answer is the row in its wire form with the three lists as they were sent, also where the row has
something under their keys. -/
structure Echoes (body : Value) (row answer : Record) : Prop where
  distinct : answer.keys.Nodup
  events : answer.get? "events" = some (.sequence (elements body "events"))
  courses : answer.get? "courses" = some (.sequence (elements body "recommendedCourses"))
  checklist : answer.get? "checklistItems" = some (.sequence (elements body "preparationChecklist"))
  others : ∀ key, key ∉ ["events", "courses", "checklistItems"] → answer.get? key = row.toCamel.get? key

theorem echoes_created (body : Value) (name : String) (row : Record) :
    Echoes body row (created row (draftOf body name)) where
  distinct :=
    Record.nodup_insert (Record.nodup_insert (Record.nodup_insert (Record.keys_ofList_nodup _) _ _) _ _) _ _
  events := by simp [created, Record.get?_insert, draftOf]
  courses := by simp [created, Record.get?_insert, draftOf]
  checklist := by simp [created, Record.get?_insert, draftOf]
  others := by
    intro key hkey
    simp only [List.mem_cons, List.not_mem_nil, or_false, not_or] at hkey
    obtain ⟨hevents, hcourses, hchecklist⟩ := hkey
    simp only [created, Record.get?_insert, if_neg (Ne.symm hevents), if_neg (Ne.symm hcourses),
      if_neg (Ne.symm hchecklist)]

theorem asked_of_insertions {v : Visit} (hbody : v.jsonBody = .ok body) (id : String) {nested : List Statement}
    (hnested : List.Forall₂ (fun p st => Inserts p.1 company p.2 st) (submitted body) nested) :
    Asked body name company (look name :: insertion (draftOf body name) id :: nested) := by
  have hmade : ∀ {column : String} {o : Operand}, (newColumns.zip newValues).lookup column = some o →
      (insertion (draftOf body name) id).handed? "companies" column
        = o.handed? (insertion (draftOf body name) id).params :=
    fun hcolumn => Statement.handed?_insert read?_insertion hcolumn _
  exact .intro ((hmade rfl).trans rfl) ((hmade rfl).trans rfl) (denotes_companyInfo hbody) hnested

/-- A creation under a free name in which nothing fails adds the company and everything that is nested in it, each
element by one statement of its own, and answers the row with the lists as they were sent. -/
theorem create_completes {handler : GuardedPlace.Guarded}
    (hhandler : GuardedPlace.companies.handler? .post = some handler) {caller : Caller} {v : Visit}
    (hbody : v.jsonBody = .ok body) (hname : trimmedText (body.get? "name") = some name) (hfilled : name ≠ "")
    (hfree : ¬ Taken name s.db) {x : Except Refusal HttpResponse}
    (hplays : (handler caller v).run.Plays script x) (hfollows : Follows e s script s')
    (hcalm : ErrorFree script) :
    ∃ row answer, s'.db.rows "companies" = s.db.rows "companies" ++ [row] ∧ row.column "name" = .text name ∧
      (statements script).length = 2 + (elements body "events").length
        + (elements body "recommendedCourses").length + (elements body "preparationChecklist").length ∧
      Asked body name (row.column "id") (statements script) ∧
      Grown e (row.column "id") (submitted body) (s.db.set "companies" (s.db.rows "companies" ++ [row])) s'.db ∧
      x = .ok (HttpResponse.json 201 (.record answer)) ∧ Echoes body row answer := by
  obtain ⟨y, hcreate, rfl⟩ := (plays_post_iff hhandler hbody (run_draftForm hname hfilled)).mp hplays
  rcases look_cases hcreate hfollows with ⟨htaken, -⟩ | ⟨failure, hfails, -⟩ | ⟨-, found, rest, rfl, hmake, hrest⟩
  · exact absurd htaken hfree
  · exact absurd hcalm hfails.not_errorFree
  · have hcalm' : ErrorFree rest := fun exchange hmem => hcalm exchange (List.mem_cons_of_mem _ hmem)
    obtain ⟨row, id, nested, rfl, hstatements, hnested, hdescribes, hgrown⟩ := make_completes hmake hrest hcalm'
    have hgrown' : Grown e (row.column "id") (submitted body)
        (s.db.set "companies" (s.db.rows "companies" ++ [row])) s'.db := hgrown
    have hasked : Asked body name (row.column "id") (statements (found :: rest)) := by
      rw [statements_create hcreate, hstatements]
      exact asked_of_insertions hbody id hnested
    refine ⟨row, created row (draftOf body name), ?_, hdescribes.name, hasked.length_eq, hasked, hgrown', rfl,
      echoes_created body name row⟩
    rw [hgrown.rows_companies fun p hp => Draft.mem_all hp, Sql.rows_set, if_pos rfl]

/-! ## A company with an event and an item -/

theorem run_query_plain (ht : t ∈ NestedTable.all) {id : String} (hid : castUuid (.text id) = .ok (.text id))
    (hcompany : castUuid company = .ok company) (element : Value) (db : Database) :
    ∃ db', t.query.run .plain (t.insertion id company element).params db = .ok ([], db') := by
  simp only [NestedTable.all, List.mem_cons, List.not_mem_nil, or_false] at ht
  rcases ht with rfl | rfl | rfl
  all_goals
    simp only [NestedTable.query, NestedTable.values, NestedTable.insertion, Query.run, List.mapIdx_cons,
      List.mapIdx_nil, List.map_cons, List.map_nil, List.cons_append, List.nil_append, List.append_nil,
      List.mapM_cons, List.mapM_nil, Operand.bind, argument, List.getElem?_cons_zero,
      List.getElem?_cons_succ, castTo, hid, hcompany, events, courses, items]
    exact ⟨_, rfl⟩

theorem run_insertion_plain {id : String} (hid : castUuid (.text id) = .ok (.text id)) (draft : Draft)
    (db : Database) :
    ∃ row db', row.column "id" = .text id ∧
      (Query.insert "companies" newColumns newValues false (some .all)).run .plain (insertion draft id).params db =
        .ok ([row], db') := by
  simp only [Query.run, newValues, insertion, List.mapM_cons, List.mapM_nil, Operand.bind, argument,
    List.getElem?_cons_zero, List.getElem?_cons_succ, castTo, hid]
  exact ⟨_, _, by rfl, rfl⟩

def largeText : String :=
  "\x7b\"name\":\" Acme \",\"companyInfo\":\x7b\"size\":\"large\"\x7d,"
    ++ "\"events\":[\x7b\"title\":\"Fair\",\"date\":\"soon\"\x7d],\"preparationChecklist\":[7]\x7d"

def fair : Value := .record [("title", .text "Fair"), ("date", .text "soon")]

def largeBody : Value :=
  .record [("name", .text " Acme "), ("companyInfo", .record [("size", .text "large")]),
    ("events", .sequence [fair]), ("preparationChecklist", .sequence [.ofInt 7])]

def largeVisit : Visit where
  request := ⟨.post, "/api/companies", [("content-type", "application/json")], largeText.toUTF8⟩
  bodyLimit := 1024
  keys := ⟨"large", 3600, by decide⟩
  now := 0

theorem jsonBody_large : largeVisit.jsonBody = .ok largeBody := by
  have htext : Utf8.leading largeVisit.request.body.data.toList = largeText.toList := by decide
  have hread : Json.readLeading? largeText.toList = some largeBody := by cbv
  exact Handler.jsonBody_of_read (by decide) (by decide) htext hread

theorem exists_large :
    ∃ (script : List Exchange) (row : Record) (s' : Storage),
      (create (draftOf largeBody "Acme")).run.Plays script (.ok row) ∧
      Follows .plain (Storage.empty "/uploads") script s' ∧ ErrorFree script := by
  let one := Uuid.print (List.replicate 32 1)
  let two := Uuid.print (List.replicate 32 2)
  let three := Uuid.print (List.replicate 32 3)
  have hone : castUuid (.text one) = .ok (.text one) := castUuid_replicate (by decide)
  have htwo : castUuid (.text two) = .ok (.text two) := castUuid_replicate (by decide)
  have hthree : castUuid (.text three) = .ok (.text three) := castUuid_replicate (by decide)
  have hnew : Value.text two ∉ [Value.text one] := by decide
  have hnew' : Value.text three ∉ [Value.text two, .text one] := by decide
  let draft := draftOf largeBody "Acme"
  obtain ⟨row, db₁, hid, hmade⟩ := run_insertion_plain hone draft Database.empty
  obtain ⟨db₂, hevent⟩ := run_query_plain (t := events) List.mem_cons_self htwo hone fair db₁
  obtain ⟨db₃, hitem⟩ := run_query_plain (t := items) (by simp [NestedTable.all]) hthree hone (.ofInt 7) db₂
  let script : List Exchange :=
    [⟨.execute (look "Acme"), .ok []⟩, ⟨.freshId, one⟩, ⟨.execute (insertion draft one), .ok [row]⟩,
      ⟨.freshId, two⟩, ⟨.execute (events.insertion two (.text one) fair), .ok []⟩,
      ⟨.freshId, three⟩, ⟨.execute (items.insertion three (.text one) (.ofInt 7)), .ok []⟩]
  have hfill : (fill draft row).run.Plays (script.drop 3) (.ok row) := by
    rw [fill, hid]
    exact .ask (.ask (.ask (.ask (.done _))))
  have hplays : (create draft).run.Plays script (.ok row) := by
    rw [create_eq]
    exact .ask (.ask (.ask hfill))
  have hlooks : Serves .plain (Storage.empty "/uploads") (.execute (look "Acme")) (.ok []) _ :=
    .of_run read?_look rfl
  have hfollows : Follows .plain (Storage.empty "/uploads") script _ :=
    .cons (.inl hlooks) <| .cons (.inl (.freshId _ hone List.not_mem_nil)) <|
      .cons (.inl (.of_run read?_insertion hmade)) <| .cons (.inl (.freshId _ htwo hnew)) <|
      .cons (.inl (.of_run (NestedTable.read?_text List.mem_cons_self) hevent)) <|
      .cons (.inl (.freshId _ hthree hnew')) <|
      .cons (.inl (.of_run (NestedTable.read?_text (by simp [NestedTable.all])) hitem)) (.nil _)
  have hcalm : ErrorFree script := by simp [ErrorFree, script, Exchange.failure?]
  exact ⟨script, row, _, hplays, hfollows, hcalm⟩

/-- A company of a large size is made with its only event and an item that is no record, while no course is sent. -/
theorem create_completes_large :
    ∃ (handler : GuardedPlace.Guarded) (caller : Caller) (script : List Exchange) (x : Except Refusal HttpResponse)
      (s' : Storage), GuardedPlace.companies.handler? .post = some handler ∧
      largeVisit.jsonBody = .ok largeBody ∧ trimmedText (largeBody.get? "name") = some "Acme" ∧ "Acme" ≠ "" ∧
      ¬ Taken "Acme" (Storage.empty "/uploads").db ∧ (handler caller largeVisit).run.Plays script x ∧
      Follows .plain (Storage.empty "/uploads") script s' ∧ ErrorFree script ∧
      ∃ row answer, s'.db.rows "companies" = [row] ∧ row.column "name" = .text "Acme" ∧
        (statements script).length = 4 ∧
        Asked largeBody "Acme" (row.column "id") (statements script) ∧
        Grown .plain (row.column "id") (submitted largeBody)
          ((Storage.empty "/uploads").db.set "companies" [row]) s'.db ∧
        x = .ok (HttpResponse.json 201 (.record answer)) ∧ Echoes largeBody row answer := by
  obtain ⟨script, row, s', hcreate, hfollows, hcalm⟩ := exists_large
  have hname : trimmedText (largeBody.get? "name") = some "Acme" := by decide
  have hfilled : "Acme" ≠ "" := by decide
  have hfree : ¬ Taken "Acme" (Storage.empty "/uploads").db := nofun
  obtain ⟨handler, hhandler⟩ : ∃ handler, GuardedPlace.companies.handler? .post = some handler := ⟨_, rfl⟩
  let caller : Caller := ⟨"ada", "ada@example.edu"⟩
  have hplays : (handler caller largeVisit).run.Plays script _ :=
    (plays_post_iff hhandler jsonBody_large (run_draftForm hname hfilled)).mpr ⟨_, hcreate, rfl⟩
  exact ⟨handler, caller, script, _, s', hhandler, jsonBody_large, hname, hfilled, hfree, hplays, hfollows, hcalm,
    create_completes hhandler jsonBody_large hname hfilled hfree hplays hfollows hcalm⟩

end Company
end JobTrail
