import JobTrail.Task
import JobTrail.Uuid

/-! # Services

The operations on stored data. A service is a task that may end with an error; the first error ends
it. Ids are UUID columns, so an id that spells no UUID is answered without a statement.
-/

namespace JobTrail

abbrev Service (α : Type) := ExceptT ServiceError Task α

namespace Service

def execute (sql : String) (params : List Value) : Service (List Record) :=
  ExceptT.mk do return (← Task.perform (.execute ⟨sql, params⟩)).mapError .database

def freshId : Service Value :=
  ExceptT.mk do return .ok (.text (← Task.perform .freshId))

def putBlob (path : String) (bytes : ByteArray) : Service String :=
  ExceptT.mk do return (← Task.perform (.putBlob path bytes)).mapError .blob

def getBlob (path : String) : Service (Option ByteArray) :=
  ExceptT.mk do return (← Task.perform (.getBlob path)).mapError .blob

def locateBlob (uri : String) : Service (Option String) :=
  ExceptT.mk do return .ok (← Task.perform (.locateBlob uri))

def orMissing (found : Option α) (message : String) : Service α :=
  match found with
  | some a => pure a
  | none => throw (.notFound message)

def first (rows : List Record) (missing : String) : Service Record := orMissing rows.head? missing

def owned (sql id user missing : String) : Service Record :=
  if Uuid.isUuid id then do
    let rows ← execute sql [.text id, .text user]
    first rows missing
  else throw (.notFound missing)

def compile (t : UpdateTemplate) (scope : List Value) (patch : Value) : Service Statement :=
  match t.compile scope patch with
  | .ok s => pure s
  | .error e => throw (.update e)

end Service

def Value.ofText? (s : Option String) : Value := .ofOption (s.map .text)

def Value.ofRecords (rows : List Record) : Value := .sequence (rows.map .record)

/-- The value of a row's column, null when the row lacks it. -/
def Record.column (row : Record) (name : String) : Value := .ofOption (row.get? name)

end JobTrail
