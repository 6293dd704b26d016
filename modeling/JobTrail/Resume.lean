import JobTrail.Service

/-! # Resumes

A user's resumes with their files. One of them can be the primary one, and the profile points at its
file. A file is stored before the row that names it, so a failure in between leaves no row without
its file.
-/

namespace JobTrail.Resume

def fields : List String := ["name", "is_primary"]

def missing : String := "Resume not found"

def missingFile : String := "Resume file not found"

structure Draft where
  name : String
  fileName : String
  fileUri : String
  primary : Bool
deriving DecidableEq, Repr

structure Download where
  fileName : String
  bytes : ByteArray

def updateTemplate : UpdateTemplate where
  table := "resumes"
  allow := fields
  casts := [("is_primary", "boolean")]
  scope := [⟨"id", some "uuid"⟩, ⟨"user_id", some "uuid"⟩]
  returning := "*"

def list (user : String) : Service (List Record) :=
  Service.execute
    "SELECT * FROM resumes WHERE user_id = $1::uuid ORDER BY is_primary DESC, uploaded_at DESC"
    [.text user]

def find (id user : String) : Service Record :=
  Service.owned "SELECT * FROM resumes WHERE id = $1::uuid AND user_id = $2::uuid" id user missing

def pointProfile (user : String) (fileUri : Value) : Service Unit := do
  let _ ← Service.execute "UPDATE users SET resume_uri = $1 WHERE id = $2::uuid" [fileUri, .text user]

/-- Adds a resume. A primary one takes that place from the others and becomes the profile's. -/
def create (user : String) (draft : Draft) : Service Record := do
  if draft.primary then
    let _ ← Service.execute "UPDATE resumes SET is_primary = FALSE WHERE user_id = $1::uuid" [.text user]
  let rows ← Service.execute
    ("INSERT INTO resumes (id, user_id, name, file_name, file_uri, is_primary) "
     ++ "VALUES ($1::uuid, $2::uuid, $3, $4, $5, $6) "
     ++ "RETURNING *")
    [← Service.freshId, .text user, .text draft.name, .text draft.fileName, .text draft.fileUri,
      .bool draft.primary]
  let resume ← Service.first rows missing
  if draft.primary then pointProfile user (.text draft.fileUri)
  return resume

/-- Stores a file, then adds the resume that names it. -/
def upload (user name fileName : String) (bytes : ByteArray) (primary : Bool) : Service Record := do
  let fileUri ← Service.putBlob (BlobPath.resume user fileName bytes) bytes
  create user { name, fileName, fileUri, primary }

/-- Applies a patch in wire spelling. Making a resume primary takes that place from the user's others
first and points the profile at its file. -/
def update (id user : String) (patch : Value) : Service Record := do
  let existing ← Service.owned
    "SELECT id, file_uri FROM resumes WHERE id = $1::uuid AND user_id = $2::uuid" id user missing
  let statement ← Service.compile updateTemplate [.text id, .text user] patch
  if (patch.get? "isPrimary").bind Value.flag? = some true then
    let _ ← Service.execute
      "UPDATE resumes SET is_primary = FALSE WHERE user_id = $1::uuid AND id != $2::uuid"
      [.text user, .text id]
    pointProfile user (existing.column "file_uri")
  let rows ← Service.execute statement.sql statement.params
  Service.first rows missing

def delete (id user : String) : Service Unit := do
  let _ ← Service.owned
    "DELETE FROM resumes WHERE id = $1::uuid AND user_id = $2::uuid RETURNING id" id user missing

def readFile (path missing : String) : Service ByteArray := do
  Service.orMissing (← Service.getBlob path) missing

/-- A resume's file, when its URI is one that the store gave out. -/
def download (id user : String) : Service Download := do
  let row ← Service.owned
    "SELECT file_name, file_uri FROM resumes WHERE id = $1::uuid AND user_id = $2::uuid"
    id user missingFile
  let uri ← Service.orMissing ((row.get? "file_uri").bind Value.text?) missingFile
  let path ← Service.orMissing (← Service.locateBlob uri) missingFile
  let bytes ← readFile path missingFile
  return ⟨((row.get? "file_name").bind Value.text?).getD "resume.pdf", bytes⟩

end JobTrail.Resume
