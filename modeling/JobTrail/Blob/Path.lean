import JobTrail.Crypto.Sha256
import JobTrail.Error
import JobTrail.Text.Hex

/-! # Blob paths

Where uploaded files lie, relative to the root of the store, and the URIs they are fetched from. An
uploaded resume is named by the digest of its bytes, so the same bytes of a user share one place; a
tailored resume has a fixed place that its id gives.
-/

namespace JobTrail.BlobPath

def segments (path : String) : List String := (path.toList.splitOn '/').map String.ofList

/-- A segment that names a file or a directory below its parent. -/
def isPlain (segment : String) : Bool := segment ≠ "" && segment ≠ "." && segment ≠ ".."

/-- Relative, without empty segments and dots. -/
def isValid (path : String) : Bool := (segments path).all isPlain

inductive Component where
  | root
  | current
  | parent
  | normal (name : String)
deriving DecidableEq, Repr

def Component.ofSegment? (segment : String) : Option Component :=
  if segment = "" ∨ segment = "." then none
  else if segment = ".." then some .parent
  else some (.normal segment)

/-- What stands in front of a path, if that is a slash or a dot. -/
def front : List String → List Component
  | [] => []
  | first :: rest => if first = "" ∧ rest ≠ [] then [.root] else if first = "." then [.current] else []

/-- The parts of a path. Empty segments and single dots are passed over after the front. -/
def components (path : String) : List Component :=
  front (segments path) ++ (segments path).filterMap Component.ofSegment?

def Component.isNormal : Component → Bool
  | normal _ => true
  | _ => false

/-- Checks a path twice, by its text and by its parts. -/
def check (path : String) : Except BlobError (List String) :=
  if path = "" ∨ path.toList.head? = some '/' ∨ ¬ isValid path then .error (.invalidPath path)
  else if (components path).all Component.isNormal then .ok (segments path)
  else .error (.invalidPath path)

/-- The last segment of a client's file name that is neither empty nor a single dot; a double dot is
no name. -/
def fileName? (name : String) : Option String :=
  match ((segments name).filter fun s => s ≠ "" ∧ s ≠ ".").getLast? with
  | some ".." => none
  | last => last

/-- The text after the last dot; a dot in front does not count. -/
def extension? (name : String) : Option String :=
  (fileName? name).bind fun file =>
    let reversed := file.toList.reverse
    let before := (reversed.dropWhile (· ≠ '.')).drop 1
    if before.isEmpty then none
    else some (String.ofList (reversed.takeWhile (· ≠ '.')).reverse)

/-- The extension of an uploaded file: ASCII letters and digits in lowercase, else `pdf`. -/
def storedExtension (name : String) : String :=
  match (extension? name).filter fun e => e.toList.all Char.isAlphanum with
  | some e => String.ofList (e.toList.map Char.toLower)
  | none => "pdf"

def resume (user file : String) (bytes : ByteArray) : String :=
  let digest := String.ofList (Hex.encodeBytes (Sha256.digest bytes.data.toList))
  "resumes/" ++ user ++ "/" ++ digest ++ "." ++ storedExtension file

def tailored (id : String) : String := "tailored/" ++ id ++ ".pdf"

def tailoredDownload (id : String) : String := "/api/resumes/tailored/" ++ id ++ "/download"

def trimSlashes (text : String) : String :=
  String.ofList (text.toList.reverse.dropWhile (· = '/')).reverse

def stripFront : List Char → List Char → Option (List Char)
  | [], rest => some rest
  | c :: front, d :: rest => if c = d then stripFront front rest else none
  | _ :: _, [] => none

def ofUri? (publicPath uri : String) : Option String :=
  match stripFront ((trimSlashes publicPath).toList ++ ['/']) uri.toList with
  | some [] | none => none
  | some rest => some (String.ofList rest)

end JobTrail.BlobPath
