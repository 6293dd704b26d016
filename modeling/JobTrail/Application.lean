import JobTrail.Service

/-! # Applications

The jobs that a user applied for. Every statement is scoped to the owner.
-/

namespace JobTrail.Application

def fields : List String :=
  ["company", "role", "location", "status", "applied_date", "notes", "company_logo"]

def statuses : List String := ["Applied", "Interview", "Offer", "Rejected"]

def missing : String := "Application not found"

structure Draft where
  company : String
  role : String
  location : String
  status : String
  appliedDate : String
  notes : Option String
  companyLogo : Option String
deriving DecidableEq, Repr

def updateTemplate : UpdateTemplate where
  table := "applications"
  allow := fields
  casts := [("applied_date", "date")]
  scope := [⟨"id", some "uuid"⟩, ⟨"user_id", some "uuid"⟩]
  returning := "*"

def list (user : String) : Service (List Record) :=
  Service.execute
    "SELECT * FROM applications WHERE user_id = $1::uuid ORDER BY applied_date DESC, created_at DESC"
    [.text user]

def find (id user : String) : Service Record :=
  Service.owned "SELECT * FROM applications WHERE id = $1::uuid AND user_id = $2::uuid"
    id user missing

def create (user : String) (draft : Draft) : Service Record := do
  let rows ← Service.execute
    ("INSERT INTO applications "
     ++ "(id, user_id, company, role, location, status, applied_date, notes, company_logo) "
     ++ "VALUES ($1::uuid, $2::uuid, $3, $4, $5, $6, $7::date, $8, $9) "
     ++ "RETURNING *")
    [← Service.freshId, .text user, .text draft.company, .text draft.role, .text draft.location,
      .text draft.status, .text draft.appliedDate, .ofText? draft.notes, .ofText? draft.companyLogo]
  Service.first rows missing

/-- Applies a patch in wire spelling, after a look whether the row is the user's. -/
def update (id user : String) (patch : Value) : Service Record := do
  let _ ← find id user
  let statement ← Service.compile updateTemplate [.text id, .text user] patch
  let rows ← Service.execute statement.sql statement.params
  Service.first rows missing

def delete (id user : String) : Service Unit := do
  let _ ← Service.owned
    "DELETE FROM applications WHERE id = $1::uuid AND user_id = $2::uuid RETURNING id"
    id user missing

end JobTrail.Application
