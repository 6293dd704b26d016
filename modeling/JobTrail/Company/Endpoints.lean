import JobTrail.Company
import JobTrail.Http.Handler

/-! # Endpoints for companies -/

namespace JobTrail.Company

def elements (body : Value) (key : String) : List Value :=
  ((body.get? key).bind Value.sequence?).getD []

/-- A new company: only the name is required, and what is nested in it goes along as it is. -/
def draftForm : Form (Option Draft) := do
  let name ← Form.check Rule.requiredText "name" "Company name is required"
  let notes ← Form.text "notes"
  let logo ← Form.text "logo"
  let industry ← Form.text "industry"
  let body ← Form.body
  return do
    some {
      name := ← name, notes := notes.getD "", logo, industry, info := .ofOption (body.get? "companyInfo")
      events := elements body "events", courses := elements body "recommendedCourses"
      checklist := elements body "preparationChecklist" }

/-- The stored row with the lists as they were sent. -/
def created (row : Record) (draft : Draft) : Record :=
  (((row.toCamel).insert "events" (.sequence draft.events)).insert
    "courses" (.sequence draft.courses)).insert "checklistItems" (.sequence draft.checklist)

namespace Endpoint

def list : Handler Reply := do
  return Reply.rows (← Handler.service Company.list)

def find (id : String) : Handler Reply := do
  return Reply.row (← Handler.service (Company.find id))

def create (body : Value) : Handler Reply := do
  let draft ← Handler.check draftForm "Company name is required" body
  let row ← Handler.service (Company.create draft)
  return Reply.created (.record (Company.created row draft))

end Endpoint
end JobTrail.Company
