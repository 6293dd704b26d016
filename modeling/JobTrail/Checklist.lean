import JobTrail.Service

/-! # Checklist items

What a user prepares for a company. Clients bring their state up to date by posting what they want:
an item that the user already has under the same company and title is refreshed, any other is added.
-/

namespace JobTrail.Checklist

def fields : List String := ["title", "description", "completed", "category"]

def categories : List String :=
  ["Interview Prep", "Portfolio", "Culture Study", "Technical Skills"]

def missing : String := "Checklist item not found"

structure Draft where
  companyId : String
  title : String
  description : Option String
  completed : Bool
  category : String
deriving DecidableEq, Repr

inductive Posted where
  | created (row : Record)
  | updated (row : Record)
deriving DecidableEq

def updateTemplate : UpdateTemplate where
  table := "checklist_items"
  allow := fields
  casts := [("completed", "boolean")]
  scope := [⟨"id", some "uuid"⟩, ⟨"user_id", some "uuid"⟩]
  returning := "*"

def list (user : String) : Option String → Service (List Record)
  | some company =>
    if Uuid.isUuid company then
      Service.execute
        ("SELECT * FROM checklist_items WHERE user_id = $1::uuid AND company_id = $2::uuid "
         ++ "ORDER BY category, title")
        [.text user, .text company]
    else pure []
  | none =>
    Service.execute
      "SELECT * FROM checklist_items WHERE user_id = $1::uuid ORDER BY category, title"
      [.text user]

def find (id user : String) : Service Record :=
  Service.owned "SELECT * FROM checklist_items WHERE id = $1::uuid AND user_id = $2::uuid"
    id user missing

/-- Refreshes the item of a row; a text that is not given stays. -/
def refresh (id : Value) (draft : Draft) : Service Record := do
  let rows ← Service.execute
    ("UPDATE checklist_items SET completed = $1::boolean, "
     ++ "description = COALESCE($2, description), category = COALESCE($3, category) "
     ++ "WHERE id = $4::uuid RETURNING *")
    [.bool draft.completed, .ofText? draft.description, .text draft.category, id]
  Service.first rows missing

def add (user : String) (draft : Draft) : Service Record := do
  let rows ← Service.execute
    ("INSERT INTO checklist_items (id, company_id, user_id, title, description, completed, category) "
     ++ "VALUES ($1::uuid, $2::uuid, $3::uuid, $4, $5, $6::boolean, $7) "
     ++ "RETURNING *")
    [← Service.freshId, .text draft.companyId, .text user, .text draft.title,
      .ofText? draft.description, .bool draft.completed, .text draft.category]
  Service.first rows missing

def post (user : String) (draft : Draft) : Service Posted :=
  if Uuid.isUuid draft.companyId then do
    let rows ← Service.execute
      ("SELECT id FROM checklist_items "
       ++ "WHERE user_id = $1::uuid AND company_id = $2::uuid AND title = $3")
      [.text user, .text draft.companyId, .text draft.title]
    match rows.head? with
    | some row => return .updated (← refresh (row.column "id") draft)
    | none => return .created (← add user draft)
  else throw (.notFound "Company not found")

def update (id user : String) (patch : Value) : Service Record := do
  let _ ← find id user
  let statement ← Service.compile updateTemplate [.text id, .text user] patch
  let rows ← Service.execute statement.sql statement.params
  Service.first rows missing

def delete (id user : String) : Service Unit := do
  let _ ← Service.owned
    "DELETE FROM checklist_items WHERE id = $1::uuid AND user_id = $2::uuid RETURNING id"
    id user missing

end JobTrail.Checklist
