import JobTrail.Company.Endpoints
import JobTrail.Proofs.User.Targets

/-!
# Companies that are half made

What is left behind if a statement fails while a company is created. The company is added before what is
nested in it, one row at a time, and nothing is undone, so the company stays with the rows in front of the
one that failed. Its name is taken from then on, and no later creation finishes what is missing.
-/

set_option maxRecDepth 8192

namespace JobTrail.Company

open Sql Storage
open User (FailsAt)

variable {e : Engine} {s s' : Storage} {db db' db'' : Database} {script : List Exchange} {draft : Draft}
  {rows : List Record} {id : String} {company element : Value}

/-! ## Nested elements -/

/-- A column of a nested row, the key that it is taken from, and the type that it is cast to. -/
structure Cell where
  column : String
  key : String
  cast : Option String

structure NestedTable where
  table : String
  text : String
  cells : List Cell
  /-- The columns that get null. -/
  nulls : List String

def events : NestedTable where
  table := "events"
  text :=
    "INSERT INTO events (id, company_id, title, description, event_date, type, registration_link) "
     ++ "VALUES ($1::uuid, $2::uuid, $3, $4, $5::timestamptz, $6, $7)"
  cells := [⟨"title", "title", none⟩, ⟨"description", "description", none⟩,
    ⟨"event_date", "date", some "timestamptz"⟩, ⟨"type", "type", none⟩,
    ⟨"registration_link", "registrationLink", none⟩]
  nulls := []

def courses : NestedTable where
  table := "courses"
  text :=
    "INSERT INTO courses (id, company_id, title, provider, duration, level, link, skills) "
     ++ "VALUES ($1::uuid, $2::uuid, $3, $4, $5, $6, $7, $8::text[])"
  cells := [⟨"title", "title", none⟩, ⟨"provider", "provider", none⟩, ⟨"duration", "duration", none⟩,
    ⟨"level", "level", none⟩, ⟨"link", "link", none⟩, ⟨"skills", "skills", some "text[]"⟩]
  nulls := []

def items : NestedTable where
  table := "checklist_items"
  text :=
    "INSERT INTO checklist_items (id, company_id, title, description, category, user_id) "
     ++ "VALUES ($1::uuid, $2::uuid, $3, $4, $5, NULL)"
  cells := [⟨"title", "title", none⟩, ⟨"description", "description", none⟩, ⟨"category", "category", none⟩]
  nulls := ["user_id"]

namespace NestedTable

def all : List NestedTable := [events, courses, items]

def columns (t : NestedTable) : List String := ["id", "company_id"] ++ t.cells.map (·.column) ++ t.nulls

def values (t : NestedTable) : List Operand :=
  [.parameter 0 (some "uuid"), .parameter 1 (some "uuid")]
    ++ t.cells.mapIdx (fun i cell => .parameter (i + 2) cell.cast) ++ t.nulls.map fun _ => .constant .null

def query (t : NestedTable) : Query := .insert t.table t.columns t.values false none

def insertion (t : NestedTable) (id : String) (company element : Value) : Statement :=
  ⟨t.text, [.text id, company] ++ t.cells.map fun cell => field element cell.key⟩

def add (t : NestedTable) (company element : Value) : Service Unit := do
  let id ← Service.freshId
  let _ ← Service.execute t.text ([id, company] ++ t.cells.map fun cell => field element cell.key)

variable {t : NestedTable}

theorem read?_text (h : t ∈ all) : read? t.text = some t.query := by
  simp only [all, List.mem_cons, List.not_mem_nil, or_false] at h
  rcases h with rfl | rfl | rfl
  all_goals
    exact ((spells_ofList _).append (spells_ofList _)).read? (by decide)

theorem table_ne (h : t ∈ all) : t.table ≠ "companies" := by
  simp only [all, List.mem_cons, List.not_mem_nil, or_false] at h
  rcases h with rfl | rfl | rfl <;> decide

theorem lookup_company (h : t ∈ all) :
    (t.columns.zip t.values).lookup "company_id" = some (.parameter 1 (some "uuid")) := by
  simp only [all, List.mem_cons, List.not_mem_nil, or_false] at h
  rcases h with rfl | rfl | rfl <;> rfl

theorem lookup_null (h : t ∈ all) {column : String} (hcolumn : column ∈ t.nulls) :
    (t.columns.zip t.values).lookup column = some (.constant .null) := by
  simp only [all, List.mem_cons, List.not_mem_nil, or_false] at h
  rcases h with rfl | rfl | rfl
  · cases hcolumn
  · cases hcolumn
  · obtain rfl := List.mem_singleton.mp hcolumn
    rfl

theorem lookup_cell (h : t ∈ all) (i : Fin t.cells.length) :
    (t.columns.zip t.values).lookup t.cells[i].column = some (.parameter (i.val + 2) t.cells[i].cast) := by
  simp only [all, List.mem_cons, List.not_mem_nil, or_false] at h
  rcases h with rfl | rfl | rfl
  all_goals
    revert i
    decide

theorem params_insertion (i : Fin t.cells.length) :
    (t.insertion id company element).params[i.val + 2]? = some (field element t.cells[i].key) := by
  simp [insertion]

end NestedTable

theorem addEvent_eq (company event : Value) : addEvent company event = events.add company event := rfl

theorem addCourse_eq (company course : Value) : addCourse company course = courses.add company course := rfl

theorem addItem_eq (company item : Value) : addItem company item = items.add company item := rfl

/-- What is nested in a company, in the order in which it is added. -/
def Draft.elements (draft : Draft) : List (NestedTable × Value) :=
  draft.events.map (Company.events, ·) ++ draft.courses.map (Company.courses, ·)
    ++ draft.checklist.map (items, ·)

theorem Draft.mem_all {p : NestedTable × Value} (h : p ∈ draft.elements) : p.1 ∈ NestedTable.all := by
  simp only [elements, List.mem_append, List.mem_map] at h
  rcases h with (⟨_, -, rfl⟩ | ⟨_, -, rfl⟩) | ⟨_, -, rfl⟩ <;> simp [NestedTable.all]

/-! ## Statements -/

def lookText : String := "SELECT id FROM companies WHERE name = $1"

def insertionText : String :=
  ("INSERT INTO companies (id, name, notes, logo, industry, company_info) "
   ++ "VALUES ($1::uuid, $2, $3, $4, $5, $6::jsonb) "
   ++ "RETURNING *")

def look (name : String) : Statement := ⟨lookText, [.text name]⟩

def insertion (draft : Draft) (id : String) : Statement :=
  ⟨insertionText, [.text id, .text draft.name, .text draft.notes, .ofText? draft.logo, .ofText? draft.industry,
    jsonText draft.info]⟩

def taken : ServiceError := .rejected "Company already exists"

/-- What comes after the company is added. -/
def fill (draft : Draft) (company : Record) : Service Record := do
  draft.elements.forM fun p => p.1.add (company.column "id") p.2
  return company

/-- What comes after the name is found free. -/
def make (draft : Draft) : Service Record := do
  let id ← Service.freshId
  let rows ← Service.execute insertionText [id, .text draft.name, .text draft.notes, .ofText? draft.logo,
    .ofText? draft.industry, jsonText draft.info]
  let company ← Service.first rows missing
  fill draft company

theorem create_eq (draft : Draft) : create draft = (do
    let found ← Service.execute lookText (look draft.name).params
    if found.isEmpty then make draft else throw taken) := by
  have hfill : ∀ company : Record, (do
      draft.events.forM (addEvent (company.column "id"))
      draft.courses.forM (addCourse (company.column "id"))
      draft.checklist.forM (addItem (company.column "id"))
      return company : Service Record) = fill draft company := by
    intro company
    have hevents := funext (addEvent_eq (company.column "id"))
    have hcourses := funext (addCourse_eq (company.column "id"))
    have hitems := funext (addItem_eq (company.column "id"))
    rw [hevents, hcourses, hitems]
    simp only [fill, Draft.elements, List.forM_eq_forM, List.forM_append, List.forM_map, bind_assoc]
  refine congrArg (Service.execute lookText (look draft.name).params >>= ·) (funext fun found => ?_)
  cases found with
  | nil =>
    refine congrArg (Service.freshId >>= ·) (funext fun id => ?_)
    refine congrArg (Service.execute insertionText _ >>= ·) (funext fun rows => ?_)
    exact congrArg (Service.first rows missing >>= ·) (funext hfill)
  | cons row rows => rfl

/-! ## Nested rows -/

/-- A row holds an element under its company, each value as its column stores it. -/
structure Stores (e : Engine) (company : Value) (t : NestedTable) (element : Value) (row : Record) :
    Prop where
  company : row.column "company_id" = company
  cells : ∀ cell ∈ t.cells, castTo e (field element cell.key) cell.cast = .ok (row.column cell.column)
  nulls : ∀ column ∈ t.nulls, row.column column = .null

/-- The tables have grown by one row for each element, in order, and are otherwise as before. -/
def Grown (e : Engine) (company : Value) (elements : List (NestedTable × Value)) (db db' : Database) : Prop :=
  ∀ table, ∃ added, db'.rows table = db.rows table ++ added ∧
    List.Forall₂ (fun p row => Stores e company p.1 p.2 row) (elements.filter (·.1.table = table)) added

theorem grown_nil (e : Engine) (company : Value) (db : Database) : Grown e company [] db db := by
  intro table
  exact ⟨[], by simp, .nil⟩

theorem Grown.append {first rest : List (NestedTable × Value)} (h : Grown e company first db db')
    (h' : Grown e company rest db' db'') : Grown e company (first ++ rest) db db'' := by
  intro table
  obtain ⟨added, hrows, hadded⟩ := h table
  obtain ⟨added', hrows', hadded'⟩ := h' table
  refine ⟨added ++ added', ?_, ?_⟩
  · rw [hrows', hrows, List.append_assoc]
  · rw [List.filter_append]
    exact List.rel_append hadded hadded'

theorem grown_singleton {t : NestedTable} {row : Record} (hrow : Stores e company t element row) :
    Grown e company [(t, element)] db (db.set t.table (db.rows t.table ++ [row])) := by
  intro table
  rw [Sql.rows_set]
  by_cases htable : table = t.table
  · subst htable
    refine ⟨[row], if_pos rfl, ?_⟩
    simpa using hrow
  · refine ⟨[], ?_, ?_⟩
    · rw [if_neg htable, List.append_nil]
    · simp [Ne.symm htable]

theorem Grown.rows_companies {elements : List (NestedTable × Value)} (h : Grown e company elements db db')
    (hknown : ∀ p ∈ elements, p.1 ∈ NestedTable.all) : db'.rows "companies" = db.rows "companies" := by
  obtain ⟨added, hrows, hadded⟩ := h "companies"
  have hnone : elements.filter (·.1.table = "companies") = [] := by
    rw [List.filter_eq_nil_iff]
    intro p hp
    simpa using NestedTable.table_ne (hknown p hp)
  rw [hnone, List.forall₂_nil_left_iff] at hadded
  rw [hrows, hadded, List.append_nil]

theorem run_query {t : NestedTable} (ht : t ∈ NestedTable.all) (hcompany : castUuid company = .ok company)
    (hrun : t.query.run e (t.insertion id company element).params db = .ok (rows, db')) :
    Grown e company [(t, element)] db db' := by
  obtain ⟨fs, hfs, ⟨⟨⟩, -⟩ | ⟨rfl, -⟩⟩ := run_insert hrun
  let row := newRow e t.table t.columns (fs.map fun f => f [])
  apply grown_singleton
  constructor
  · have hcolumn : castTo e company (some "uuid") = .ok (row.column "company_id") :=
      column_newRow_parameter hfs (NestedTable.lookup_company ht) rfl
    exact Except.ok.inj (hcolumn.symm.trans hcompany)
  · intro cell hcell
    obtain ⟨i, hi, rfl⟩ := List.getElem_of_mem hcell
    exact column_newRow_parameter hfs (NestedTable.lookup_cell ht ⟨i, hi⟩)
      (NestedTable.params_insertion ⟨i, hi⟩)
  · intro column hcolumn
    obtain ⟨f, hf, hvalue⟩ := column_newRow t.table hfs (NestedTable.lookup_null ht hcolumn)
    cases hf
    exact hvalue

/-! ## The row of a company -/

structure Describes (e : Engine) (draft : Draft) (row : Record) : Prop where
  name : row.column "name" = .text draft.name
  notes : row.column "notes" = .text draft.notes
  logo : row.column "logo" = .ofText? draft.logo
  industry : row.column "industry" = .ofText? draft.industry
  info : castTo e (jsonText draft.info) (some "jsonb") = .ok (row.column "company_info")

def Taken (name : String) (db : Database) : Prop :=
  ∃ row ∈ db.rows "companies", row.column "name" = .text name

def newColumns : List String := ["id", "name", "notes", "logo", "industry", "company_info"]

def newValues : List Operand :=
  [.parameter 0 (some "uuid"), .parameter 1 none, .parameter 2 none, .parameter 3 none, .parameter 4 none,
    .parameter 5 (some "jsonb")]

theorem read?_look :
    read? lookText = some (.select (.these ["id"]) "companies" none [.equals "name" (.parameter 0 none)] []) :=
  (spells_ofList _).read? (by decide)

theorem read?_insertion :
    read? insertionText = some (.insert "companies" newColumns newValues false (some .all)) :=
  (((spells_ofList _).append (spells_ofList _)).append (spells_ofList _)).read? (by decide)

theorem run_look {name : String}
    (hrun : (Query.select (.these ["id"]) "companies" none [.equals "name" (.parameter 0 none)] []).run e
      (look name).params db = .ok (rows, db')) : db' = db ∧ (rows = [] ↔ ¬ Taken name db) := by
  cases (run_select_text _ _ _ _).symm.trans hrun
  refine ⟨rfl, ?_⟩
  rw [List.map_eq_nil_iff, arrange_eq_nil_iff, List.filter_eq_nil_iff]
  simp [Taken]

theorem run_insertion (hrun : (Query.insert "companies" newColumns newValues false (some .all)).run e
      (insertion draft id).params db = .ok (rows, db')) :
    ∃ row, rows = [row] ∧ castUuid (row.column "id") = .ok (row.column "id") ∧ Describes e draft row ∧
      db' = db.set "companies" (db.rows "companies" ++ [row]) := by
  obtain ⟨fs, hfs, ⟨⟨⟩, -⟩ | ⟨rfl, rfl⟩⟩ := run_insert hrun
  let row := newRow e "companies" newColumns (fs.map fun f => f [])
  have hid : castTo e (.text id) (some "uuid") = .ok (row.column "id") := column_newRow_parameter hfs rfl rfl
  have hplain : ∀ {place : Nat} {column : String} {v : Value},
      (newColumns.zip newValues).lookup column = some (.parameter place none) →
      (insertion draft id).params[place]? = some v → row.column column = v := by
    intro place column v hcolumn hv
    exact (Except.ok.inj (column_newRow_parameter hfs hcolumn hv)).symm
  refine ⟨row, rfl, castUuid_idem (v := .text id) hid, ?_, rfl⟩
  exact ⟨hplain rfl rfl, hplain rfl rfl, hplain rfl rfl, hplain rfl rfl, column_newRow_parameter hfs rfl rfl⟩

/-! ## Where a creation stops -/

theorem follows_add {t : NestedTable} (ht : t ∈ NestedTable.all) (hcompany : castUuid company = .ok company)
    {x : Except ServiceError Unit} (hplays : (t.add company element).run.Plays script x)
    (hfollows : Follows e s script s') :
    (x = .ok () ∧ Grown e company [(t, element)] s.db s'.db) ∨
      ∃ id failure, x = .error (.database failure) ∧
        FailsAt script (t.insertion id company element) failure ∧ s'.db = s.db := by
  obtain ⟨id, rest, rfl, hinsertion⟩ := Task.plays_freshId_andThen_iff.mp hplays
  cases hfollows with
  | @cons _ _ _ s₁ _ hfresh hrest =>
    have hsame : s₁.db = s.db := hfresh.freshId
    have hread := NestedTable.read?_text ht
    rcases Task.plays_execute_andThen_iff.mp hinsertion with ⟨rows, last, rfl, hpure⟩ | ⟨failure, rfl, rfl⟩
    · obtain ⟨rfl, rfl⟩ := Task.plays_done_iff.mp hpure
      rcases hrest.execute_cons hread with ⟨_, db', -, hrun, hnil⟩ | ⟨_, ⟨⟩, -⟩
      cases hnil
      rw [hsame] at hrun
      exact .inl ⟨rfl, run_query (t := t) ht hcompany hrun⟩
    · rcases hrest.execute_cons hread with ⟨_, _, ⟨⟩, -, -⟩ | ⟨_, -, hnil⟩
      cases hnil
      exact .inr ⟨id, failure, rfl, rfl, hsame⟩

/-- Elements are added one by one up to the one that fails. -/
theorem follows_adds {elements : List (NestedTable × Value)} (hknown : ∀ p ∈ elements, p.1 ∈ NestedTable.all)
    (hcompany : castUuid company = .ok company) {x : Except ServiceError Unit}
    (hplays : (elements.forM fun p => p.1.add company p.2).run.Plays script x)
    (hfollows : Follows e s script s') :
    (x = .ok () ∧ Grown e company elements s.db s'.db) ∨
      ∃ done t element more id failure, elements = done ++ (t, element) :: more ∧
        Grown e company done s.db s'.db ∧ FailsAt script (t.insertion id company element) failure ∧
        x = .error (.database failure) := by
  induction elements generalizing s script with
  | nil =>
    obtain ⟨rfl, rfl⟩ := Task.plays_done_iff.mp hplays
    cases hfollows
    exact .inl ⟨rfl, grown_nil e company _⟩
  | cons p elements ih =>
    -- Each table gets the row of `p` before any row of the rest, so the two growths append in this order.
    obtain ⟨hp, hrest⟩ := List.forall_mem_cons.mp hknown
    rcases Task.plays_andThen_iff.mp hplays with ⟨first, last, ⟨⟩, rfl, hadd, hadds⟩ | ⟨err, hadd, rfl⟩
    · obtain ⟨s₁, hfirst, hlast⟩ := follows_append_iff.mp hfollows
      rcases follows_add hp hcompany hadd hfirst with ⟨-, hone⟩ | ⟨_, _, ⟨⟩, -, -⟩
      rcases ih hrest hadds hlast with ⟨rfl, hgrown⟩ | ⟨done, t, element, more, id, failure, hstops⟩
      · exact .inl ⟨rfl, hone.append hgrown⟩
      · obtain ⟨rfl, hgrown, hfails, rfl⟩ := hstops
        refine .inr ⟨p :: done, t, element, more, id, failure, rfl, ?_, hfails.after first, rfl⟩
        exact hone.append hgrown
    · rcases follows_add hp hcompany hadd hfollows with ⟨⟨⟩, -⟩ | ⟨id, failure, hx, hfails, hsame⟩
      cases hx
      refine .inr ⟨[], p.1, p.2, elements, id, failure, rfl, ?_, hfails, rfl⟩
      rw [hsame]
      exact grown_nil e company s.db

/-- How a creation stops. Nothing is changed as long as the company is not added. If it stops in what is
nested, the company stays with a row for each element in front of the one that failed. -/
inductive Stopped (e : Engine) (draft : Draft) (db db' : Database) (script : List Exchange) :
    ServiceError → Prop where
  | taken : Taken draft.name db → db' = db → Stopped e draft db db' script Company.taken
  | unlooked {failure : DatabaseError} : FailsAt script (look draft.name) failure → db' = db →
      Stopped e draft db db' script (.database failure)
  | unmade {id : String} {failure : DatabaseError} : FailsAt script (insertion draft id) failure → db' = db →
      Stopped e draft db db' script (.database failure)
  | unfilled {row : Record} {done more : List (NestedTable × Value)} {t : NestedTable} {element : Value}
      {id : String} {failure : DatabaseError} : draft.elements = done ++ (t, element) :: more →
      ¬ Taken draft.name db → Describes e draft row →
      Grown e (row.column "id") done (db.set "companies" (db.rows "companies" ++ [row])) db' →
      FailsAt script (t.insertion id (row.column "id") element) failure →
      Stopped e draft db db' script (.database failure)

theorem follows_fill {x : Except ServiceError Record} {row : Record}
    (hid : castUuid (row.column "id") = .ok (row.column "id")) (hplays : (fill draft row).run.Plays script x)
    (hfollows : Follows e s script s') :
    x = .ok row ∨ ∃ done t element more id failure, draft.elements = done ++ (t, element) :: more ∧
      Grown e (row.column "id") done s.db s'.db ∧
      FailsAt script (t.insertion id (row.column "id") element) failure ∧ x = .error (.database failure) := by
  rcases Task.plays_andThen_iff.mp hplays with ⟨first, rest, ⟨⟩, rfl, -, hpure⟩ | ⟨err, hadds, rfl⟩
  · obtain ⟨-, rfl⟩ := Task.plays_done_iff.mp hpure
    exact .inl rfl
  · rcases follows_adds (fun p hp => Draft.mem_all hp) hid hadds hfollows with ⟨⟨⟩, -⟩ | hstops
    obtain ⟨done, t, element, more, id, failure, helements, hgrown, hfails, hx⟩ := hstops
    cases hx
    exact .inr ⟨done, t, element, more, id, failure, helements, hgrown, hfails, rfl⟩

theorem Stopped.after {err : ServiceError} (h : Stopped e draft db db' script err) (before : List Exchange) :
    Stopped e draft db db' (before ++ script) err := by
  cases h with
  | taken htaken hsame => exact .taken htaken hsame
  | unlooked hfails hsame => exact .unlooked (hfails.after before) hsame
  | unmade hfails hsame => exact .unmade (hfails.after before) hsame
  | unfilled helements hfree hdescribes hgrown hfails =>
    exact .unfilled helements hfree hdescribes hgrown (hfails.after before)

theorem stopped_of_make {err : ServiceError} (hfree : ¬ Taken draft.name s.db)
    (hplays : (make draft).run.Plays script (.error err)) (hfollows : Follows e s script s') :
    Stopped e draft s.db s'.db script err := by
  obtain ⟨id, rest, rfl, hinsertion⟩ := Task.plays_freshId_andThen_iff.mp hplays
  cases hfollows with
  | @cons _ _ _ s₁ _ hfresh hrest =>
    have hsame : s₁.db = s.db := hfresh.freshId
    rcases Task.plays_execute_andThen_iff.mp hinsertion with ⟨rows, last, rfl, hfirst⟩ | ⟨failure, rfl, ⟨⟩⟩
    · rcases hrest.execute_cons read?_insertion with ⟨_, db', ⟨⟩, hrun, hlast⟩ | ⟨_, ⟨⟩, -⟩
      rw [hsame] at hrun
      obtain ⟨row, rfl, hid, hdescribes, rfl⟩ := run_insertion hrun
      change (fill draft row).run.Plays last _ at hfirst
      rcases follows_fill hid hfirst hlast with hok | ⟨done, t, element, more, id', failure, hstops⟩
      · cases hok
      · obtain ⟨helements, hgrown, hfails, hx⟩ := hstops
        cases hx
        exact .unfilled helements hfree hdescribes hgrown (hfails.after [_, _])
    · rcases hrest.execute_cons read?_insertion with ⟨_, _, ⟨⟩, -, -⟩ | ⟨_, -, hnil⟩
      cases hnil
      exact .unmade rfl hsame

/-- A creation looks for its name first, and goes on only if the name is free. -/
theorem look_cases {x : Except ServiceError Record} (hplays : (create draft).run.Plays script x)
    (hfollows : Follows e s script s') :
    (Taken draft.name s.db ∧ x = .error taken ∧ s'.db = s.db) ∨
      (∃ failure, FailsAt script (look draft.name) failure ∧ x = .error (.database failure) ∧ s'.db = s.db) ∨
      ¬ Taken draft.name s.db ∧ ∃ found rest, script = found :: rest ∧ (make draft).run.Plays rest x ∧
        Follows e s rest s' := by
  rw [create_eq] at hplays
  rcases Task.plays_execute_andThen_iff.mp hplays with ⟨rows, rest, rfl, hrest⟩ | ⟨failure, rfl, rfl⟩
  · rcases hfollows.execute_cons read?_look with ⟨_, db', ⟨⟩, hrun, hfollows'⟩ | ⟨_, ⟨⟩, -⟩
    obtain ⟨rfl, hfound⟩ := run_look hrun
    cases rows with
    | nil => exact .inr (.inr ⟨hfound.mp rfl, _, rest, rfl, hrest, hfollows'⟩)
    | cons row rows =>
      obtain ⟨rfl, rfl⟩ := Task.plays_done_iff.mp hrest
      cases hfollows'
      exact .inl ⟨by simpa using hfound, rfl, rfl⟩
  · rcases hfollows.execute_cons read?_look with ⟨_, _, ⟨⟩, -, -⟩ | ⟨_, -, hnil⟩
    cases hnil
    exact .inr (.inl ⟨failure, rfl, rfl, rfl⟩)

/-- A creation under a taken name changes nothing. -/
theorem refused_of_taken {x : Except ServiceError Record} (htaken : Taken draft.name s.db)
    (hplays : (create draft).run.Plays script x) (hfollows : Follows e s script s') :
    s'.db = s.db ∧ (x = .error taken ∨
      ∃ failure, FailsAt script (look draft.name) failure ∧ x = .error (.database failure)) := by
  rcases look_cases hplays hfollows with ⟨-, hx, hsame⟩ | ⟨failure, hfails, hx, hsame⟩ | ⟨hfree, -⟩
  · exact ⟨hsame, .inl hx⟩
  · exact ⟨hsame, .inr ⟨failure, hfails, hx⟩⟩
  · exact absurd htaken hfree

theorem Stopped.taken_or_eq {err : ServiceError} (h : Stopped e draft db db' script err) :
    Taken draft.name db' ∨ db' = db := by
  cases h with
  | taken _ hsame => exact .inr hsame
  | unlooked _ hsame => exact .inr hsame
  | unmade _ hsame => exact .inr hsame
  | @unfilled row done _ _ _ _ _ helements _ hdescribes hgrown _ =>
    left
    -- What is nested goes into other tables, so the row of the company is still the last one of its own.
    have hknown : ∀ p ∈ done, p.1 ∈ NestedTable.all := by
      intro p hp
      have hmem : p ∈ draft.elements := by
        rw [helements]
        exact List.mem_append_left _ hp
      exact Draft.mem_all hmem
    refine ⟨row, ?_, hdescribes.name⟩
    rw [hgrown.rows_companies hknown, Sql.rows_set, if_pos rfl]
    exact List.mem_concat_self

/-- A creation that fails stops in one of four places. Wherever it has changed anything its name is taken,
and as long as it is, no later creation under the name adds anything or succeeds. -/
theorem create_stops {err : ServiceError} (hplays : (create draft).run.Plays script (.error err))
    (hfollows : Follows e s script s') :
    Stopped e draft s.db s'.db script err ∧ (s'.db ≠ s.db → Taken draft.name s'.db) ∧
      ∀ (retry : Draft) (script' : List Exchange) (x : Except ServiceError Record) (s₁ s₂ : Storage),
        retry.name = draft.name → Taken draft.name s₁.db → (create retry).run.Plays script' x →
        Follows e s₁ script' s₂ →
          s₂.db = s₁.db ∧ (x = .error taken ∨
            ∃ failure, FailsAt script' (look retry.name) failure ∧ x = .error (.database failure)) := by
  have hstopped : Stopped e draft s.db s'.db script err := by
    rcases look_cases hplays hfollows with ⟨htaken, ⟨⟩, hsame⟩ | ⟨failure, hfails, ⟨⟩, hsame⟩ | ⟨hfree, hmade⟩
    · exact .taken htaken hsame
    · exact .unlooked hfails hsame
    · obtain ⟨found, rest, rfl, hmake, hrest⟩ := hmade
      exact (stopped_of_make hfree hmake hrest).after [found]
  refine ⟨hstopped, fun hchanged => hstopped.taken_or_eq.resolve_right hchanged, ?_⟩
  intro retry script' x s₁ s₂ hname htaken hretry hfollows'
  rw [← hname] at htaken
  exact refused_of_taken htaken hretry hfollows'

/-! ## A company that is left behind -/

/-- An engine that knows no date called soon. -/
def strict : Engine :=
  { Engine.plain with
    cast := fun type v =>
      match type, v with
      | "timestamptz", .text "soon" => .error .failed
      | _, v => .ok v }

def soon : Value := .record [("date", .text "soon")]

def vague : Draft := ⟨"Acme", "", none, none, .null, [soon], [], []⟩

def acme (id : String) : Record :=
  [("id", .text id), ("name", .text "Acme"), ("notes", .text ""), ("logo", .null), ("industry", .null),
    ("company_info", .null)]

/-- The exchanges of a creation whose one event has no date that could be stored. -/
def refusal (id id' : String) : List Exchange :=
  [⟨.execute (look "Acme"), .ok []⟩, ⟨.freshId, id⟩, ⟨.execute (insertion vague id), .ok [acme id]⟩,
    ⟨.freshId, id'⟩, ⟨.execute (events.insertion id' (.text id) soon), .error .failed⟩]

theorem plays_refusal (id id' : String) :
    (create vague).run.Plays (refusal id id') (.error (.database .failed)) :=
  .ask (.ask (.ask (.ask (.ask (.done _)))))

theorem run_insertion_vague (hid : castUuid (.text id) = .ok (.text id)) (db : Database) :
    (Query.insert "companies" newColumns newValues false (some .all)).run strict
      (insertion vague id).params db =
        .ok ([acme id], db.set "companies" (db.rows "companies" ++ [acme id])) := by
  simp only [Query.run, newValues, insertion, List.mapM_cons, List.mapM_nil, Operand.bind, argument,
    List.getElem?_cons_zero, List.getElem?_cons_succ, castTo, hid]
  rfl

theorem run_query_soon (hid : castUuid (.text id) = .ok (.text id)) {id' : String}
    (hid' : castUuid (.text id') = .ok (.text id')) (db : Database) :
    events.query.run strict (events.insertion id' (.text id) soon).params db = .error .failed := by
  have hvalues : events.values.mapM (Operand.bind strict (events.insertion id' (.text id) soon).params) =
      .error .failed := by
    simp only [NestedTable.values, events, NestedTable.insertion, List.mapIdx_cons, List.mapIdx_nil,
      List.map_cons, List.map_nil, List.cons_append, List.nil_append, List.append_nil, List.mapM_cons,
      Operand.bind, argument, List.getElem?_cons_zero, List.getElem?_cons_succ, castTo, hid, hid']
    rfl
  rw [NestedTable.query, Query.run, hvalues]
  rfl

theorem exists_refusal :
    ∃ (id id' : String) (s' : Storage), Follows strict (Storage.empty "/uploads") (refusal id id') s' ∧
      s'.db.rows "companies" = [acme id] := by
  let id := Uuid.print (List.replicate 32 1)
  let id' := Uuid.print (List.replicate 32 2)
  have hid : castUuid (.text id) = .ok (.text id) := castUuid_replicate (by decide)
  have hid' : castUuid (.text id') = .ok (.text id') := castUuid_replicate (by decide)
  have hnew : Value.text id' ∉ [Value.text id] := by decide
  have hlooks : Serves strict (Storage.empty "/uploads") (.execute (look "Acme")) (.ok []) _ :=
    .of_run read?_look rfl
  have hadds : ∀ s : Storage, Serves strict s (.execute (insertion vague id)) (.ok [acme id])
      { s with db := s.db.set "companies" (s.db.rows "companies" ++ [acme id]) } :=
    fun s => .of_run read?_insertion (run_insertion_vague hid s.db)
  have hrefuses : ∀ s : Storage, Serves strict s (.execute (events.insertion id' (.text id) soon))
      (.error .failed) s :=
    fun s => .of_run_error (NestedTable.read?_text List.mem_cons_self) (run_query_soon hid hid' s.db)
  have hfollows : Follows strict (Storage.empty "/uploads") (refusal id id') _ :=
    .cons (.inl hlooks) <| .cons (.inl (.freshId _ hid List.not_mem_nil)) <| .cons (.inl (hadds _)) <|
      .cons (.inl (.freshId _ hid' hnew)) <| .cons (.inl (hrefuses _)) (.nil _)
  exact ⟨id, id', _, hfollows, rfl⟩

def vagueBody : Value :=
  .record [("name", .text "Acme"), ("events", .sequence [soon])]

/-- A creation that stops at its only event. -/
theorem create_stops_at_event :
    ∃ (script : List Exchange) (s s' : Storage),
      (create vague).run.Plays script (.error (.database .failed)) ∧ Follows strict s script s' ∧
      Stopped strict vague s.db s'.db script (.database .failed) ∧ (s'.db ≠ s.db → Taken vague.name s'.db) ∧
      ∀ (retry : Draft) (script' : List Exchange) (x : Except ServiceError Record) (s₁ s₂ : Storage),
        retry.name = vague.name → Taken vague.name s₁.db → (create retry).run.Plays script' x →
        Follows strict s₁ script' s₂ →
          s₂.db = s₁.db ∧ (x = .error taken ∨
            ∃ failure, FailsAt script' (look retry.name) failure ∧ x = .error (.database failure)) := by
  obtain ⟨id, id', s', hfollows, -⟩ := exists_refusal
  exact ⟨_, _, s', plays_refusal id id', hfollows, create_stops (plays_refusal id id') hfollows⟩

/-- A company is left behind by a creation that fails, from a body that is accepted. -/
theorem create_leaves_company :
    ¬ ∀ (e : Engine) (body : Value) (draft : Draft) (script : List Exchange) (err : ServiceError)
      (s s' : Storage), draftForm.run body = .ok (some draft) →
      (create draft).run.Plays script (.error err) → Follows e s script s' →
        ∀ table ∈ ["companies", "events", "courses", "checklist_items"],
          s'.db.rows table = s.db.rows table := by
  intro law
  obtain ⟨id, id', s', hfollows, hrows⟩ := exists_refusal
  have hbody : draftForm.run vagueBody = .ok (some vague) := by decide
  have hsame := law strict _ _ _ _ _ _ hbody (plays_refusal id id') hfollows "companies" List.mem_cons_self
  rw [hrows] at hsame
  cases hsame

end JobTrail.Company
