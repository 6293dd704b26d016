import JobTrail.Value.Transcode

/-! # Editing a record in place

The operations on a record that is changed where it stands, with what each of them answers. An insertion
and a removal answer the value that stood at the key. A record that is collected or respelled gives up its
entries and takes the new ones, and one that is drained hands its entries out and stays empty.
-/

namespace JobTrail

inductive Edit where
  | insert (key : String) (v : Value)
  | remove (key : String)
  | get (key : String)
  | contains (key : String)
  | collect (entries : List (String × Value))
  | respell (spelling : Spelling)
  | drain
deriving DecidableEq

inductive EditAnswer where
  | found (v : Option Value)
  | present (b : Bool)
  | drained (entries : List (String × Value))
  | done
deriving DecidableEq

namespace Record

def exchange : Record → String → Value → Option Value × Record
  | [], key, v => (none, [(key, v)])
  | (k, old) :: rest, key, v =>
    if k = key then (some old, (k, v) :: rest)
    else
      let (found, rest) := exchange rest key v
      (found, (k, old) :: rest)

def withdraw : Record → String → Option Value × Record
  | [], _ => (none, [])
  | (k, v) :: rest, key =>
    if k = key then (some v, rest)
    else
      let (found, rest) := withdraw rest key
      (found, (k, v) :: rest)

def respell (r : Record) : Spelling → Record
  | .camel => r.toCamel
  | .snake => r.toSnake

def edit (r : Record) : Edit → EditAnswer × Record
  | .insert key v =>
    let (replaced, r) := r.exchange key v
    (.found replaced, r)
  | .remove key =>
    let (removed, r) := r.withdraw key
    (.found removed, r)
  | .get key => (.found (r.get? key), r)
  | .contains key => (.present (r.contains key), r)
  | .collect entries => (.done, ofList entries)
  | .respell spelling => (.done, r.respell spelling)
  | .drain => (.drained r, [])

def run (edits : List Edit) : Record := edits.foldl (fun r e => (r.edit e).2) []

end Record
end JobTrail
