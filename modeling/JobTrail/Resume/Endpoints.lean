import JobTrail.Http.Handler
import JobTrail.Resume.Tailored

/-! # Endpoints for resumes and their tailored versions -/

namespace JobTrail.Resume

def draftForm : Form (Option Draft) := do
  let name ← Form.check Rule.requiredText "name" "Name is required"
  let fileName ← Form.check Rule.requiredText "fileName" "File name is required"
  let fileUri ← Form.check Rule.requiredText "fileUri" "File URI is required"
  let primary ← Form.check Rule.optionalFlag "isPrimary" "isPrimary must be a boolean"
  return do
    some { name := ← name, fileName := ← fileName, fileUri := ← fileUri, primary := primary.getD false }

def uploadForm : Form (Option (String × Bool)) := do
  let name ← Form.check Rule.requiredText "name" "Name is required"
  let primary ← Form.check Rule.optionalFlag "isPrimary" "isPrimary must be a boolean"
  return name.map (·, primary.getD false)

def patchForm : Form Unit := do
  let _ ← Form.check Rule.optionalText "name" "Name cannot be empty"
  let _ ← Form.check Rule.optionalFlag "isPrimary" "isPrimary must be a boolean"

/-- A file name that can stand between quotes in a header. -/
def headerName (fileName : String) : String :=
  String.ofList (fileName.toList.filter fun c => c ≠ '"' ∧ ¬ isControl c)

def contentDisposition (fileName : String) : String :=
  "attachment; filename=\"" ++ headerName fileName ++ "\""

def attachment (d : Download) : HttpResponse where
  status := 200
  headers := [("content-type", "application/pdf"),
    ("content-disposition", contentDisposition d.fileName)]
  body := d.bytes

namespace Endpoint

def list (caller : Caller) : Handler Reply := do
  return Reply.rows (← Handler.service (Resume.list caller.userId))

def find (caller : Caller) (id : String) : Handler Reply := do
  return Reply.row (← Handler.service (Resume.find id caller.userId))

def create (caller : Caller) (body : Value) : Handler Reply := do
  let draft ← Handler.check draftForm "Invalid resume" body
  return Reply.createdRow (← Handler.service (Resume.create caller.userId draft))

/-- A file without a name of its own is named after the resume. -/
def upload (caller : Caller) (v : Visit) : Handler Reply := do
  match v.boundary? with
  | none => throw (.malformed Visit.missingBoundary)
  | some boundary =>
    let sent ← v.sentForm boundary
    let (name, primary) ← Handler.check uploadForm "Name is required" (.record sent.fields)
    match sent.file with
    | none => Handler.refuse (.badRequest "File is required")
    | some file =>
      let fileName := file.fileName.getD (name ++ ".pdf")
      return Reply.createdRow
        (← Handler.service (Resume.upload caller.userId name fileName file.bytes primary))

def update (caller : Caller) (id : String) (body : Value) : Handler Reply := do
  Handler.checkOnly patchForm body
  return Reply.row (← Handler.service (Resume.update id caller.userId body))

def delete (caller : Caller) (id : String) : Handler Reply := do
  Handler.service (Resume.delete id caller.userId)
  return Reply.message "Resume deleted successfully"

def download (caller : Caller) (id : String) : Handler HttpResponse := do
  return attachment (← Handler.service (Resume.download id caller.userId))

end Endpoint
end JobTrail.Resume

namespace JobTrail.Tailored

def draftForm : Form (Option Draft) := do
  let originalId ← Form.check Rule.requiredText "originalResumeId" "Original resume ID is required"
  let jobDescription ← Form.check Rule.requiredText "jobDescription" "Job description is required"
  let companyName ← Form.check Rule.requiredText "companyName" "Company name is required"
  let positionTitle ← Form.check Rule.requiredText "positionTitle" "Position title is required"
  return do
    some {
      originalId := ← originalId, jobDescription := ← jobDescription, companyName := ← companyName
      positionTitle := ← positionTitle }

def statusForm : Form (Option String) :=
  Form.check (Rule.optionalOneOf statuses) "processingStatus" "Valid processing status is required"

/-- Whether a body is sent in parts: the type has to start with exactly this. -/
def isInParts (r : HttpRequest) : Bool :=
  (r.plainHeader? "content-type").any fun t => "multipart/form-data".toList.isPrefixOf t.toList

namespace Endpoint

def list (caller : Caller) : Handler Reply := do
  return Reply.rows (← Handler.service (Tailored.list caller.userId))

def find (caller : Caller) (id : String) : Handler Reply := do
  return Reply.row (← Handler.service (Tailored.find id caller.userId))

def create (caller : Caller) (body : Value) : Handler Reply := do
  let draft ← Handler.check draftForm "Invalid tailoring request" body
  return Reply.createdRow (← Handler.service (Tailored.create caller.userId draft))

def sentChange (v : Visit) : Handler (Value × Option ByteArray) := do
  if isInParts v.request then
    match v.boundary? with
    | none => Handler.refuse (.badRequest Visit.missingBoundary)
    | some boundary =>
      let sent ← v.sentForm boundary
      return (.record sent.fields, sent.file.map (·.bytes))
  else return (← v.json, none)

def update (caller : Caller) (id : String) (v : Visit) : Handler Reply := do
  let (fields, file) ← sentChange v
  let status ← Handler.ofExcept (statusForm.run fields)
  return Reply.row (← Handler.service (Tailored.update id caller.userId ⟨file, status⟩))

def delete (caller : Caller) (id : String) : Handler Reply := do
  Handler.service (Tailored.delete id caller.userId)
  return Reply.ok (.record
    [("message", .text "Tailored resume deleted successfully"), ("id", .text id)])

def download (caller : Caller) (id : String) : Handler HttpResponse := do
  return Resume.attachment (← Handler.service (Tailored.download id caller.userId))

end Endpoint
end JobTrail.Tailored
