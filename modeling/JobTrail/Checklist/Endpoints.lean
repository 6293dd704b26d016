import JobTrail.Checklist
import JobTrail.Http.Handler

/-! # Endpoints for checklist items -/

namespace JobTrail.Checklist

/-- An item to add or to refresh; it is open unless said otherwise. -/
def draftForm : Form (Option Draft) := do
  let companyId ← Form.check Rule.requiredText "companyId" "Company ID is required"
  let title ← Form.check Rule.requiredText "title" "Title is required"
  let category ← Form.check (Rule.oneOf categories) "category" "Valid category is required"
  let completed ← Form.check Rule.optionalFlag "completed" "Completed must be a boolean"
  let description ← Form.filledText "description"
  return do
    some {
      companyId := ← companyId, title := ← title, description, completed := completed.getD false
      category := ← category }

def patchForm : Form Unit := do
  let _ ← Form.check (Rule.optionalOneOf categories) "category" "Valid category is required"

/-- The company that a list is narrowed to by the query; an empty one does not count. -/
def companyFilter (query : Option String) : Except Refusal (Option String) :=
  match (Percent.formFields (query.getD "")).filter (·.1 = "companyId") with
  | [] => .ok none
  | [(_, company)] => .ok (if company = "" then none else some company)
  | _ => .error (.malformed "Failed to deserialize query string: duplicate field `companyId`")

namespace Endpoint

def list (caller : Caller) (query : Option String) : Handler Reply := do
  let company ← ExceptT.mk (pure (companyFilter query))
  return Reply.rows (← Handler.service (Checklist.list caller.userId company))

def find (caller : Caller) (id : String) : Handler Reply := do
  return Reply.row (← Handler.service (Checklist.find id caller.userId))

def post (caller : Caller) (body : Value) : Handler Reply := do
  let draft ← Handler.check draftForm "Invalid checklist item" body
  match ← Handler.service (Checklist.post caller.userId draft) with
  | .created row => return Reply.createdRow row
  | .updated row => return Reply.row row

def update (caller : Caller) (id : String) (body : Value) : Handler Reply := do
  Handler.checkOnly patchForm body
  return Reply.row (← Handler.service (Checklist.update id caller.userId body))

def delete (caller : Caller) (id : String) : Handler Reply := do
  Handler.service (Checklist.delete id caller.userId)
  return Reply.message "Checklist item deleted successfully"

end Endpoint
end JobTrail.Checklist
