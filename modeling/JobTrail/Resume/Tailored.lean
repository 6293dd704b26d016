import JobTrail.Resume

/-! # Tailored resumes

Versions of a resume made for one position. A row starts in processing; the file that comes later
has a place that the row's id gives, and a new file replaces the old one.
-/

namespace JobTrail.Tailored

def fields : List String := ["file_uri", "processing_status"]

def statuses : List String := ["processing", "completed", "failed"]

def missing : String := "Tailored resume not found"

def missingFile : String := "Tailored resume file not found"

structure Draft where
  originalId : String
  jobDescription : String
  companyName : String
  positionTitle : String
deriving DecidableEq, Repr

structure Change where
  file : Option ByteArray
  status : Option String

def selection : String :=
  ("SELECT tr.*, r.name AS original_resume_name, r.file_uri AS original_resume_uri "
   ++ "FROM tailored_resumes tr "
   ++ "JOIN resumes r ON tr.original_resume_id = r.id")

def updateTemplate : UpdateTemplate where
  table := "tailored_resumes"
  allow := fields
  casts := []
  scope := [⟨"id", some "uuid"⟩, ⟨"user_id", some "uuid"⟩]
  returning := "*"

def list (user : String) : Service (List Record) :=
  Service.execute (selection ++ " WHERE tr.user_id = $1::uuid ORDER BY tr.tailored_at DESC") [.text user]

def find (id user : String) : Service Record :=
  Service.owned (selection ++ " WHERE tr.id = $1::uuid AND tr.user_id = $2::uuid") id user missing

def create (user : String) (draft : Draft) : Service Record := do
  let _ ← Resume.find draft.originalId user
  let rows ← Service.execute
    ("INSERT INTO tailored_resumes "
     ++ "(id, original_resume_id, user_id, job_description, company_name, position_title, processing_status) "
     ++ "VALUES ($1::uuid, $2::uuid, $3::uuid, $4, $5, $6, 'processing') "
     ++ "RETURNING *")
    [← Service.freshId, .text draft.originalId, .text user, .text draft.jobDescription,
      .text draft.companyName, .text draft.positionTitle]
  Service.first rows missing

/-- Whether a row is the user's, as a statement that reads its id alone. -/
def check (id user missing : String) : Service Record :=
  Service.owned "SELECT id FROM tailored_resumes WHERE id = $1::uuid AND user_id = $2::uuid"
    id user missing

/-- Stores a new file and sets the patch entry for where it is fetched from. -/
def storeFile (id : String) : Option ByteArray → Service (List (String × Value))
  | none => pure []
  | some bytes => do
    let _ ← Service.putBlob (BlobPath.tailored id) bytes
    return [("fileUri", .text (BlobPath.tailoredDownload id))]

def update (id user : String) (change : Change) : Service Record := do
  let _ ← check id user missing
  let file ← storeFile id change.file
  let status := change.status.toList.map fun s => ("processingStatus", Value.text s)
  match updateTemplate.compile [.text id, .text user] (.record (file ++ status)) with
  | .error _ => throw (.rejected "No changes provided")
  | .ok statement =>
    let rows ← Service.execute statement.sql statement.params
    Service.first rows missing

def delete (id user : String) : Service Unit := do
  let _ ← Service.owned
    "DELETE FROM tailored_resumes WHERE id = $1::uuid AND user_id = $2::uuid RETURNING id"
    id user missing

def download (id user : String) : Service Resume.Download := do
  let _ ← check id user missingFile
  let bytes ← Resume.readFile (BlobPath.tailored id) missingFile
  return ⟨"Tailored_Resume.pdf", bytes⟩

end JobTrail.Tailored
