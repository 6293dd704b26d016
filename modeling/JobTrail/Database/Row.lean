import JobTrail.Database.Bind
import JobTrail.Decimal.Literal
import JobTrail.Error
import JobTrail.Uuid
import JobTrail.Value.Reader

/-! # Reading rows

The value that a cell of a row stands for. How a cell is read is decided by the name of the type of
its column. Byte columns are left out of the record, and a type without a reading gives null. A
repeated column name keeps its first place and its last value.
-/

namespace JobTrail

inductive Cell where
  | absent
  | bool (b : Bool)
  | whole (n : Int)
  /-- A double, or a number of single precision. -/
  | real (d : Binary64) (single : Bool)
  /-- A decimal number of any size, by its digits. -/
  | numeric (text : String)
  | text (s : String)
  | texts (items : List (Option String))
  /-- The 32 digits of a UUID. -/
  | uuid (digits : List Nat)
  | uuids (items : List (Option (List Nat)))
  | moment (micros : Int)
  /-- A day counted from 1970-01-01. -/
  | day (days : Int)
  | json (text : String)
  | bytes
  /-- A value of a type that has no reading. -/
  | unread
deriving DecidableEq

namespace Cell

/-- A double as a value; JSON has no way to write one that is not finite. -/
def ofReal (d : Binary64) : Value := if d.IsFinite then .number (.real d) else .null

/-- A decimal number: a whole one if it fits 64 bits, otherwise the nearest double. -/
def ofNumeric (text : String) : Value :=
  match readInt64? text.toList with
  | some n => .ofInt n
  | none =>
    match Binary64.read? text.toList with
    | some d => ofReal d
    | none => .text text

def ofItems (f : α → String) (items : List (Option α)) : Except DatabaseError Value :=
  match items.mapM id with
  | some items => .ok (.ofTexts (items.map f))
  | none => .error .failed

def value : Cell → Except DatabaseError Value
  | absent | bytes | unread => .ok .null
  | bool b => .ok (.bool b)
  | whole n => .ok (.ofInt n)
  | real d single => .ok (ofReal (if single then d.toSingle else d))
  | numeric "NaN" => .error .failed
  | numeric digits => .ok (ofNumeric digits)
  | text s => .ok (.text s)
  | texts items => ofItems id items
  | uuid digits => .ok (.text (Uuid.print digits))
  | uuids items => ofItems Uuid.print items
  | moment micros => .ok (.instant (.ofMicros micros))
  | day days => .ok (.instant ⟨days * 86400, 0⟩)
  | json written =>
    match Json.read? written with
    | some v => .ok v
    | none => .error .failed

end Cell

inductive ColumnType where
  | uuid
  | text
  /-- A whole number below the limit, and not below its negative. -/
  | whole (limit : Nat)
  | real (single : Bool)
  | numeric
  | bool
  | json
  | moment
  | day
  | texts
  | uuids
  | bytes
  /-- A type without a reading of its own, tried as a text. -/
  | other
deriving DecidableEq

namespace ColumnType

def ofName : String → ColumnType
  | "UUID" => uuid
  | "TEXT" | "VARCHAR" | "BPCHAR" | "NAME" | "CITEXT" => text
  | "INT2" => whole 32768
  | "INT4" => whole 2147483648
  | "INT8" => whole 9223372036854775808
  | "FLOAT4" => real true
  | "FLOAT8" => real false
  | "NUMERIC" => numeric
  | "BOOL" => bool
  | "JSON" | "JSONB" => json
  | "TIMESTAMPTZ" | "TIMESTAMP" => moment
  | "DATE" => day
  | "TEXT[]" | "VARCHAR[]" => texts
  | "UUID[]" => uuids
  | "BYTEA" => bytes
  | _ => other

def reads : ColumnType → Cell → Bool
  | _, .absent | other, _ => true
  | uuid, .uuid _ | text, .text _ | numeric, .numeric _ | bool, .bool _ | json, .json _ => true
  | moment, .moment _ | day, .day _ | texts, .texts _ | uuids, .uuids _ | bytes, .bytes => true
  | whole limit, .whole n => -(limit : Int) ≤ n && n < limit
  | real single, .real _ written => single = written
  | _, _ => false

end ColumnType

/-- A cell under the name of its column, with the name that the server has for the type of it. -/
structure Column where
  name : String
  typeName : String
  cell : Cell

/-- The value of a cell, by the type of its column. A cell of another type is an error, unless the
type has no reading: then what is not a text is null. -/
def Column.value (c : Column) : Except DatabaseError Value :=
  match ColumnType.ofName c.typeName, c.cell with
  | .other, .text s => .ok (.text s)
  | .other, _ => .ok .null
  | type, cell => if type.reads cell then cell.value else .error .failed

/-- The cell of a parameter that comes back in a column of its own type. -/
def Parameter.toCell : Parameter → Cell
  | missing => .absent
  | bool b => .bool b
  | whole n => .whole n
  | real d => .real d false
  | text s => .text s
  | texts items => .texts (items.map some)
  | moment micros => .moment micros
  | json written => .json written

abbrev Row := List Column

def Record.addColumn (r : Record) (c : Column) : Except DatabaseError Record := do
  if ColumnType.ofName c.typeName = .bytes then return r
  return r.insert c.name (← c.value)

def Row.toRecord (row : Row) : Except DatabaseError Record := row.foldlM Record.addColumn []

inductive ServerReply where
  | rows (rows : List Row)
  /-- A refusal with its five-character code. -/
  | refused (code message : String)
  /-- No connection, or one that broke. -/
  | unreachable

def ServerReply.records : ServerReply → Except DatabaseError (List Record)
  | rows rs => rs.mapM Row.toRecord
  | refused code message => .error (if code = "23505" then .duplicate message else .failed)
  | unreachable => .error .unavailable

end JobTrail
