import JobTrail.Blob.Path

/-! # The local store

Files in a directory tree, addressed by segments from the root. Writing creates the directories
above a file first, and those stay even when the file cannot be written. A directory in the way, a
file used as a directory, a NUL in a name and a name over 255 bytes are faults of the disk.
-/

namespace JobTrail

inductive DiskEntry where
  | directory
  | file (bytes : ByteArray)

/-- What a path leads to. Below a file there is nothing. -/
inductive Look where
  | missing
  | directory
  | file (bytes : ByteArray)
  /-- A name with a NUL or of more than 255 bytes. -/
  | unnameable

structure Disk where
  entries : List (List String × DiskEntry)

namespace Disk

def empty : Disk := ⟨[]⟩

def find? (d : Disk) (path : List String) : Option DiskEntry :=
  if path.isEmpty then some .directory else d.entries.lookup path

def insert (d : Disk) (path : List String) (entry : DiskEntry) : Disk :=
  ⟨(path, entry) :: d.entries.filter (·.1 ≠ path)⟩

def hasNul (name : String) : Bool := name.toList.contains '\x00'

def isTooLong (name : String) : Bool := 255 < name.utf8ByteSize

/-- Walks down from a directory and creates those that are missing; the flag tells success. -/
def makeDirectories (d : Disk) (at' : List String) : List String → Disk × Bool
  | [] => (d, true)
  | name :: rest =>
    let next := at' ++ [name]
    if isTooLong name then (d, false)
    else
      match d.find? next with
      | some .directory => makeDirectories d next rest
      | some (.file _) => (d, false)
      | none => makeDirectories (d.insert next .directory) next rest

def write (d : Disk) (path : List String) (bytes : ByteArray) : Disk × Bool :=
  let parent := path.dropLast
  let name := path.getLast?.getD ""
  if parent.any hasNul then (d, false)
  else
    let (d, made) := makeDirectories d [] parent
    if ¬ made ∨ hasNul name ∨ isTooLong name then (d, false)
    else
      match d.find? path with
      | some .directory => (d, false)
      | _ => (d.insert path (.file bytes), true)

inductive Found where
  | missing
  | fault
  | file (bytes : ByteArray)

def readFrom (d : Disk) (at' : List String) : List String → Found
  | [] =>
    match d.find? at' with
    | some (.file bytes) => .file bytes
    | some .directory => .fault
    | none => .missing
  | name :: rest =>
    match d.find? at' with
    | none => .missing
    | some (.file _) => .fault
    | some .directory => if isTooLong name then .fault else readFrom d (at' ++ [name]) rest

def read (d : Disk) (path : List String) : Found :=
  if path.any hasNul then .fault else readFrom d [] path

def lookUpFrom (d : Disk) (at' : List String) : List String → Look
  | [] =>
    match d.find? at' with
    | some (.file bytes) => .file bytes
    | some .directory => .directory
    | none => .missing
  | name :: rest =>
    match d.find? at' with
    | some .directory => if isTooLong name then .unnameable else lookUpFrom d (at' ++ [name]) rest
    | _ => .missing

def lookUp (d : Disk) (path : List String) : Look :=
  if path.any hasNul then .unnameable else lookUpFrom d [] path

def files (d : Disk) : List (String × ByteArray) :=
  let found := d.entries.filterMap fun (path, entry) =>
    match entry with
    | .file bytes => some ("/".intercalate path, bytes)
    | .directory => none
  found.mergeSort fun a b => a.1 ≤ b.1

end Disk

/-- A directory tree whose files are served below a public path. -/
structure BlobStore where
  publicPath : String
  disk : Disk

namespace BlobStore

def new (publicPath : String) : BlobStore := ⟨publicPath, .empty⟩

def uri (s : BlobStore) (path : String) : String := BlobPath.trimSlashes s.publicPath ++ "/" ++ path

def put (s : BlobStore) (path : String) (bytes : ByteArray) : Except BlobError String × BlobStore :=
  match BlobPath.check path with
  | .error e => (.error e, s)
  | .ok segments =>
    let (disk, done) := s.disk.write segments bytes
    (if done then .ok (s.uri path) else .error .io, { s with disk })

def get (s : BlobStore) (path : String) : Except BlobError (Option ByteArray) :=
  match BlobPath.check path with
  | .error e => .error e
  | .ok segments =>
    match s.disk.read segments with
    | .file bytes => .ok (some bytes)
    | .missing => .ok none
    | .fault => .error .io

def locate (s : BlobStore) (uri : String) : Option String := BlobPath.ofUri? s.publicPath uri

end BlobStore
end JobTrail
