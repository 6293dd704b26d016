import JobTrail.Service
import JobTrail.Value.Printer

/-! # Companies

Companies with their events, their recommended courses and the checklist items that every user
starts from. They belong to no user.
-/

namespace JobTrail.Company

def missing : String := "Company not found"

/-- A company as a client posts it; the lists keep the wire spelling of their elements. -/
structure Draft where
  name : String
  notes : String
  logo : Option String
  industry : Option String
  info : Value
  events : List Value
  courses : List Value
  checklist : List Value
deriving DecidableEq

def list : Service (List Record) :=
  Service.execute "SELECT * FROM company_recommendations_view ORDER BY name" []

def find (id : String) : Service Record :=
  if Uuid.isUuid id then do
    let rows ← Service.execute "SELECT * FROM companies WHERE id = $1::uuid" [.text id]
    let company ← Service.first rows missing
    let events ← Service.execute
      "SELECT * FROM events WHERE company_id = $1::uuid ORDER BY event_date ASC" [.text id]
    let courses ← Service.execute
      "SELECT * FROM courses WHERE company_id = $1::uuid ORDER BY title ASC" [.text id]
    let items ← Service.execute
      ("SELECT * FROM checklist_items WHERE company_id = $1::uuid AND user_id IS NULL "
       ++ "ORDER BY category, title")
      [.text id]
    return ((company.insert "events" (.ofRecords events)).insert "courses" (.ofRecords courses)).insert
      "checklist_items" (.ofRecords items)
  else throw (.notFound missing)

def field (element : Value) (key : String) : Value := .ofOption (element.get? key)

/-- Nested data goes into its column as JSON text, and null as null. -/
def jsonText (v : Value) : Value := if v.isNull then .null else .text v.print

def addEvent (company event : Value) : Service Unit := do
  let _ ← Service.execute
    ("INSERT INTO events (id, company_id, title, description, event_date, type, registration_link) "
     ++ "VALUES ($1::uuid, $2::uuid, $3, $4, $5::timestamptz, $6, $7)")
    [← Service.freshId, company, field event "title", field event "description", field event "date",
      field event "type", field event "registrationLink"]

def addCourse (company course : Value) : Service Unit := do
  let _ ← Service.execute
    ("INSERT INTO courses (id, company_id, title, provider, duration, level, link, skills) "
     ++ "VALUES ($1::uuid, $2::uuid, $3, $4, $5, $6, $7, $8::text[])")
    [← Service.freshId, company, field course "title", field course "provider",
      field course "duration", field course "level", field course "link", field course "skills"]

def addItem (company item : Value) : Service Unit := do
  let _ ← Service.execute
    ("INSERT INTO checklist_items (id, company_id, title, description, category, user_id) "
     ++ "VALUES ($1::uuid, $2::uuid, $3, $4, $5, NULL)")
    [← Service.freshId, company, field item "title", field item "description", field item "category"]

/-- Adds a company under a name that is free, then what is nested in it, one row at a time. -/
def create (draft : Draft) : Service Record := do
  let taken ← Service.execute "SELECT id FROM companies WHERE name = $1" [.text draft.name]
  if ¬ taken.isEmpty then throw (.rejected "Company already exists")
  let rows ← Service.execute
    ("INSERT INTO companies (id, name, notes, logo, industry, company_info) "
     ++ "VALUES ($1::uuid, $2, $3, $4, $5, $6::jsonb) "
     ++ "RETURNING *")
    [← Service.freshId, .text draft.name, .text draft.notes, .ofText? draft.logo,
      .ofText? draft.industry, jsonText draft.info]
  let company ← Service.first rows missing
  let id := company.column "id"
  draft.events.forM (addEvent id)
  draft.courses.forM (addCourse id)
  draft.checklist.forM (addItem id)
  return company

end JobTrail.Company
