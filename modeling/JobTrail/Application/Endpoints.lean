import JobTrail.Application
import JobTrail.Http.Handler

/-! # Endpoints for applications -/

namespace JobTrail.Application

/-- A new application: everything but notes and logo is required. -/
def draftForm : Form (Option Draft) := do
  let company ← Form.check Rule.requiredText "company" "Company is required"
  let role ← Form.check Rule.requiredText "role" "Role is required"
  let location ← Form.check Rule.requiredText "location" "Location is required"
  let status ← Form.check (Rule.oneOf statuses) "status" "Valid status is required"
  let appliedDate ← Form.check Rule.requiredText "appliedDate" "Applied date is required"
  let notes ← Form.filledText "notes"
  let companyLogo ← Form.filledText "companyLogo"
  return do
    some {
      company := ← company, role := ← role, location := ← location, status := ← status
      appliedDate := ← appliedDate, notes, companyLogo }

def patchForm : Form Unit := do
  let _ ← Form.check (Rule.optionalOneOf statuses) "status" "Valid status is required"

namespace Endpoint

def list (caller : Caller) : Handler Reply := do
  return Reply.rows (← Handler.service (Application.list caller.userId))

def find (caller : Caller) (id : String) : Handler Reply := do
  return Reply.row (← Handler.service (Application.find id caller.userId))

def create (caller : Caller) (body : Value) : Handler Reply := do
  let draft ← Handler.check draftForm "Invalid application" body
  return Reply.createdRow (← Handler.service (Application.create caller.userId draft))

def update (caller : Caller) (id : String) (body : Value) : Handler Reply := do
  Handler.checkOnly patchForm body
  return Reply.row (← Handler.service (Application.update id caller.userId body))

def delete (caller : Caller) (id : String) : Handler Reply := do
  Handler.service (Application.delete id caller.userId)
  return Reply.message "Application deleted successfully"

end Endpoint
end JobTrail.Application
