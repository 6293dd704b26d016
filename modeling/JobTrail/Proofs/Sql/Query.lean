import JobTrail.Service

/-!
# What statements mean

The part of SQL that the services speak, with its plain meaning over tables of rows. A query finds the
rows for which every condition is true, where a comparison with null is never true; it changes the one
table that it names, row by row, and answers the columns that it is asked for. A parameter that cannot
be cast fails the query, and a query that fails changes nothing.

What the text leaves to the server is kept apart in `Engine`: casts to other types than UUID and
boolean, the order among the rows of an answer, and the columns that a new row gets beside the given
ones.
-/

namespace JobTrail.Sql

/-! ## Queries -/

/-- An expression: a parameter by its place from zero with the type it is cast to, a constant, or a
parameter that a column stands in for when it is null. -/
inductive Operand where
  | parameter (place : Nat) (cast : Option String)
  | constant (v : Value)
  | orColumn (place : Nat) (cast : Option String) (column : String)
deriving DecidableEq

inductive Condition where
  | equals (column : String) (o : Operand)
  | differs (column : String) (o : Operand)
  | isNull (column : String)
deriving DecidableEq

inductive Columns where
  | all
  | these (names : List String)
deriving DecidableEq, Repr

structure SortKey where
  column : String
  descending : Bool
deriving DecidableEq, Repr

/-- Rows of another table whose key is in a column, and the columns they add under new names. -/
structure Join where
  table : String
  column : String
  key : String
  added : List (String × String)
deriving DecidableEq, Repr

inductive Query where
  | select (columns : Columns) (table : String) (join : Option Join) (conditions : List Condition)
      (order : List SortKey)
  /-- A new row; with `skipPresent` only if no row has the same values in the given columns. -/
  | insert (table : String) (columns : List String) (values : List Operand) (skipPresent : Bool)
      (returning : Option Columns)
  | update (table : String) (assignments : List (String × Operand)) (conditions : List Condition)
      (returning : Option Columns)
  | delete (table : String) (conditions : List Condition) (returning : Option Columns)
deriving DecidableEq

/-! ## Tables and what the server decides -/

structure Database where
  rows : String → List Record

namespace Database

def empty : Database := ⟨fun _ => []⟩

def set (db : Database) (table : String) (rows : List Record) : Database :=
  ⟨fun t => if t = table then rows else db.rows t⟩

end Database

structure Engine where
  cast : String → Value → Except DatabaseError Value
  arrange : List SortKey → List Record → List Record
  /-- Sorting neither drops nor adds a row. -/
  arrange_perm : ∀ keys rows, (arrange keys rows).Perm rows
  /-- The columns of a new row that a query may leave out. -/
  defaults : String → Record

/-- An engine that leaves values, rows and their order as they are. -/
def Engine.plain : Engine where
  cast := fun _ v => .ok v
  arrange := fun _ rows => rows
  arrange_perm := fun _ rows => .refl rows
  defaults := fun _ => []

/-! ## Casts and comparisons -/

/-- UUIDs are compared in one spelling. -/
def castUuid : Value → Except DatabaseError Value
  | .null => .ok .null
  | .text s =>
    match Uuid.parse? s with
    | some digits => .ok (.text (Uuid.print digits))
    | none => .error .failed
  | _ => .error .failed

def truthWords : List (String × Nat × Bool) :=
  [("true", 1, true), ("false", 1, false), ("yes", 1, true), ("no", 1, false), ("on", 2, true),
    ("off", 2, false), ("1", 1, true), ("0", 1, false)]

/-- A truth value in any of its spellings, in either case and between blanks. -/
def readTruth? (s : String) : Option Bool :=
  let isSpace (c : Char) : Bool := c = ' ' || ('\x09' ≤ c && c ≤ '\x0d')
  let trimmed := ((s.toList.dropWhile isSpace).reverse.dropWhile isSpace).reverse
  let word := trimmed.map Char.toLower
  (truthWords.find? fun (whole, least, _) => least ≤ word.length && word.isPrefixOf whole.toList).map
    (·.2.2)

def castBoolean : Value → Except DatabaseError Value
  | .null => .ok .null
  | .bool b => .ok (.bool b)
  | .text s =>
    match readTruth? s with
    | some b => .ok (.bool b)
    | none => .error .failed
  | _ => .error .failed

def castTo (e : Engine) (v : Value) : Option String → Except DatabaseError Value
  | none => .ok v
  | some "uuid" => castUuid v
  | some "boolean" => castBoolean v
  | some type => e.cast type v

def isEqual (v w : Value) : Bool := !v.isNull && !w.isNull && decide (v = w)

def isDifferent (v w : Value) : Bool := !v.isNull && !w.isNull && decide (v ≠ w)

/-! ## The meaning of a query -/

def argument (e : Engine) (params : List Value) (place : Nat) (cast : Option String) :
    Except DatabaseError Value :=
  match params[place]? with
  | some v => castTo e v cast
  | none => .error .failed

def Operand.bind (e : Engine) (params : List Value) : Operand → Except DatabaseError (Record → Value)
  | parameter place cast => (argument e params place cast).map fun v _ => v
  | constant v => .ok fun _ => v
  | orColumn place cast column =>
    (argument e params place cast).map fun v r => if v.isNull then r.column column else v

def Condition.bind (e : Engine) (params : List Value) : Condition → Except DatabaseError (Record → Bool)
  | equals column o => (o.bind e params).map fun f r => isEqual (r.column column) (f r)
  | differs column o => (o.bind e params).map fun f r => isDifferent (r.column column) (f r)
  | isNull column => .ok fun r => (r.column column).isNull

def bindAll (e : Engine) (params : List Value) (conditions : List Condition) :
    Except DatabaseError (Record → Bool) :=
  (conditions.mapM (Condition.bind e params)).map fun tests r => tests.all (· r)

/-- The values that an update assigns, each computed on the row as it was. -/
def bindSets (e : Engine) (params : List Value) (assignments : List (String × Operand)) :
    Except DatabaseError (List (String × (Record → Value))) :=
  assignments.mapM fun a => (a.2.bind e params).map fun f => (a.1, f)

def change (sets : List (String × (Record → Value))) (r : Record) : Record :=
  sets.foldl (fun new s => new.insert s.1 (s.2 r)) r

def Columns.pick (r : Record) : Columns → Record
  | all => r
  | these names => names.map fun name => (name, r.column name)

/-- The rows of an answer; a query that asks for no columns answers none. -/
def answerRows (returning : Option Columns) (rows : List Record) : List Record :=
  match returning with
  | some columns => rows.map fun r => columns.pick r
  | none => []

/-- A row with the columns that it gets from each joined row. -/
def Join.rows (db : Database) (r : Record) : Option Join → List Record
  | none => [r]
  | some j =>
    ((db.rows j.table).filter fun other => isEqual (r.column j.column) (other.column j.key)).map
      fun other => j.added.foldl (fun new a => new.insert a.2 (other.column a.1)) r

def newRow (e : Engine) (table : String) (columns : List String) (values : List Value) : Record :=
  columns.zip values ++ (e.defaults table).filter fun d => d.1 ∉ columns

/-- The answer of a query and the tables after it. -/
def Query.run (e : Engine) (params : List Value) (db : Database) :
    Query → Except DatabaseError (List Record × Database)
  | select columns table join conditions order => do
    let test ← bindAll e params conditions
    let found := ((db.rows table).filter test).flatMap fun r => Join.rows db r join
    return ((e.arrange order found).map fun r => columns.pick r, db)
  | insert table columns values skipPresent returning => do
    let values ← values.mapM (Operand.bind e params)
    let values := values.map fun f => f []
    let present := (db.rows table).any fun r => columns.map r.column = values
    if skipPresent && present then return ([], db)
    let row := newRow e table columns values
    return (answerRows returning [row], db.set table (db.rows table ++ [row]))
  | update table assignments conditions returning => do
    let sets ← bindSets e params assignments
    let test ← bindAll e params conditions
    return (answerRows returning (((db.rows table).filter test).map (change sets)),
      db.set table ((db.rows table).map fun r => if test r then change sets r else r))
  | delete table conditions returning => do
    let test ← bindAll e params conditions
    return (answerRows returning ((db.rows table).filter test),
      db.set table ((db.rows table).filter fun r => !test r))

end JobTrail.Sql
