import JobTrail.Value

/-! # JSON documents

What a JSON text denotes before it is a value, and what a value becomes before it is printed. A document has
no instants: they become their ISO text on the way there. In both directions an object is written anew, member
by member, so a repeated name keeps its first place and its last content.
-/

namespace JobTrail

inductive Document where
  | null
  | bool (b : Bool)
  | number (n : Number)
  | text (s : String)
  | object (members : List (String × Document))
  | array (items : List Document)
deriving Inhabited

namespace Document

def write : List (String × Document) → String → Document → List (String × Document)
  | [], name, d => [(name, d)]
  | (n, old) :: rest, name, d => if n = name then (n, d) :: rest else (n, old) :: write rest name d

def ofMembers (members : List (String × Document)) : Document :=
  .object (members.foldl (fun written (name, d) => write written name d) [])

mutual

def toValue : Document → Value
  | null => .null
  | bool b => .bool b
  | number n => .number n
  | text s => .text s
  | object members => .record (Record.ofList (valuesOfMembers members))
  | array items => .sequence (valuesOfItems items)

def valuesOfMembers : List (String × Document) → List (String × Value)
  | [] => []
  | (name, d) :: rest => (name, toValue d) :: valuesOfMembers rest

def valuesOfItems : List Document → List Value
  | [] => []
  | d :: rest => toValue d :: valuesOfItems rest

end

end Document

namespace Value

mutual

def toDocument : Value → Document
  | null => .null
  | bool b => .bool b
  | number n => .number n
  | text s => .text s
  | instant t => .text t.iso
  | record entries => .ofMembers (documentsOfEntries entries)
  | sequence items => .array (documentsOfItems items)

def documentsOfEntries : List (String × Value) → List (String × Document)
  | [] => []
  | (key, v) :: rest => (key, toDocument v) :: documentsOfEntries rest

def documentsOfItems : List Value → List Document
  | [] => []
  | v :: rest => toDocument v :: documentsOfItems rest

end

def throughDocument (v : Value) : Value := v.toDocument.toValue

end Value
end JobTrail
