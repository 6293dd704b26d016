import JobTrail.Http.FileType
import JobTrail.Task
import JobTrail.Text.Percent

/-! # Serving stored files

The public tree below its path. A directory is answered with the place behind a slash, and there with
its index file; a path that would leave the tree is not found.
-/

namespace JobTrail.Uploads

def rooted : List Char → String
  | '/' :: rest => String.ofList ('/' :: rest)
  | rest => String.ofList ('/' :: rest)

def below? (publicPath path : String) : Option String :=
  let front := publicPath.toList
  match BlobPath.stripFront front path.toList with
  | none => none
  | some [] => some "/"
  | some ('/' :: rest) => some (rooted rest)
  | some rest => if front.getLast? = some '/' then some (rooted rest) else none

/-- The segments of a path inside the tree; none for a path that leads out of it. -/
def segments? (path : String) : Option (List String) := do
  let decoded ← Percent.decodeText? (String.ofList (path.toList.dropWhile (· = '/')))
  let names := (BlobPath.segments decoded).filter fun s => s ≠ "" ∧ s ≠ "."
  if decoded.startsWith "/" ∨ names.contains ".." then none else some names

def notFound : HttpResponse := .bare 404

def file (method : Method) (segments : List String) (bytes : ByteArray) : HttpResponse where
  status := 200
  headers := [("content-type", FileType.ofName (segments.getLast?.getD ""))]
  body := if method = .head then .empty else bytes

def openFile (method : Method) (segments : List String) : Task HttpResponse := do
  match ← Task.perform (.lookUp segments) with
  | .file bytes => return file method segments bytes
  | .missing | .directory => return notFound
  | .unnameable => return .bare 500

def serve (method : Method) (path : String) (query : Option String) : Task HttpResponse := do
  if method ≠ .get ∧ method ≠ .head then
    return (HttpResponse.bare 405).setHeader "allow" "GET,HEAD"
  match segments? path with
  | none => return notFound
  | some segments =>
    match ← Task.perform (.lookUp segments) with
    | .directory =>
      if path.endsWith "/" then openFile method (segments ++ ["index.html"])
      else
        let target := path ++ "/" ++ (query.elim "" ("?" ++ ·))
        return (HttpResponse.bare 307).setHeader "location" target
    | _ => openFile method segments

end JobTrail.Uploads
