import JobTrail.Value.Transcode

/-! # Partial updates

A client sends a patch in wire spelling. Only the fields on an allow-list are kept, in the order of
that list; an explicit null is an assignment. The assigned values come first among the parameters
and the scoping values (row id, owner) after them, so the placeholder of a parameter is its place.
-/

namespace JobTrail

structure Statement where
  sql : String
  params : List Value
deriving DecidableEq

inductive PlaceholderStyle where
  | positional
  | numbered
deriving DecidableEq, Repr

def PlaceholderStyle.render : PlaceholderStyle → Nat → String
  | positional, _ => "?"
  | numbered, index => "$" ++ Nat.repr (index + 1)

inductive UpdateError where
  | noFieldsToUpdate
deriving DecidableEq, Repr

def UpdateError.message : UpdateError → String
  | noFieldsToUpdate => "No valid fields to update"

/-- The allow-listed fields that a patch sets, in allow-list order, with their values. -/
def patchedFields (allow : List String) (patch : Value) : List (String × Value) :=
  let stored := patch.toSnake.record?.getD []
  allow.filterMap fun field => (stored.get? field).map (field, ·)

structure CompiledUpdate where
  fields : List String
  /-- The assigned values, followed by the scoping values. -/
  params : List Value
  /-- One `field = placeholder` for each field. -/
  assignments : List String
  style : PlaceholderStyle

namespace CompiledUpdate

def fragment (u : CompiledUpdate) : String := ", ".intercalate u.assignments

def scopePlaceholder (u : CompiledUpdate) (n : Nat) : String := u.style.render (u.fields.length + n)

end CompiledUpdate

/-- Compiles a patch; one that sets no allow-listed field is refused. -/
def compileUpdate (allow : List String) (scope : List Value) (patch : Value)
    (style : PlaceholderStyle) : Except UpdateError CompiledUpdate :=
  match patchedFields allow patch with
  | [] => .error .noFieldsToUpdate
  | entries =>
    .ok {
      fields := entries.map (·.1)
      params := entries.map (·.2) ++ scope
      assignments := entries.zipIdx.map fun (entry, i) => entry.1 ++ " = " ++ style.render i
      style }

/-- A predicate of a `WHERE` clause: a column, and the type its value is cast to. -/
structure ScopeColumn where
  column : String
  cast : Option String
deriving DecidableEq, Repr

structure UpdateTemplate where
  table : String
  allow : List String
  /-- Casts of assigned fields; the first one for a field counts. -/
  casts : List (String × String)
  scope : List ScopeColumn
  returning : String

namespace UpdateTemplate

def withCast (placeholder : String) : Option String → String
  | some type => placeholder ++ "::" ++ type
  | none => placeholder

def compile (t : UpdateTemplate) (scope : List Value) (patch : Value) :
    Except UpdateError Statement := do
  let u ← compileUpdate t.allow scope patch .numbered
  let set := u.fields.zipIdx.map fun (field, i) =>
    field ++ " = " ++ withCast (PlaceholderStyle.numbered.render i) (t.casts.lookup field)
  let predicates := t.scope.zipIdx.map fun (s, i) =>
    s.column ++ " = " ++ withCast (u.scopePlaceholder i) s.cast
  let filter := if predicates.isEmpty then "" else " WHERE " ++ " AND ".intercalate predicates
  .ok ⟨"UPDATE " ++ t.table ++ " SET " ++ ", ".intercalate set ++ filter
    ++ " RETURNING " ++ t.returning, u.params⟩

end UpdateTemplate
end JobTrail
