import JobTrail.Database.Row
import JobTrail.Value.Document

/-! # What the driver is given and gives back

Between a value and the bytes of a parameter, and between the bytes of a cell and its value, stands a value of
one of the driver's types. One table tells what a value is handed over as, another what is made of what comes
back; how the driver writes and reads each type is its own affair.
-/

namespace JobTrail

inductive Bound where
  | missing
  | bool (b : Bool)
  | whole (n : Int)
  | real (d : Binary64)
  | text (s : String)
  | texts (items : List String)
  | instant (t : Instant)
  | document (d : Document)

def Number.bound : Number → Bound
  | .int n => if fitsInt64 n then .whole n else .real (Binary64.ofInt n)
  | .real d => .real d

/-- What a value is handed over as: only a list of nothing but texts is an array. -/
def Value.bound : Value → Bound
  | .null => .missing
  | .bool b => .bool b
  | .number n => n.bound
  | .text s => .text s
  | .instant t => .instant t
  | .sequence items =>
    match items.mapM Value.text? with
    | some texts => .texts texts
    | none => .document (Value.sequence items).toDocument
  | .record entries => .document (Value.record entries).toDocument

namespace Bound

def value : Bound → Value
  | missing => .null
  | bool b => .bool b
  | whole n => .ofInt n
  | real d => Cell.ofReal d
  | text s => .text s
  | texts items => .ofTexts items
  | instant t => .instant t
  | document d => d.toValue

def written : Bound → Parameter
  | missing => .missing
  | bool b => .bool b
  | whole n => .whole n
  | real d => .real d
  | text s => .text s
  | texts items => .texts items
  | instant t => .moment t.toMicros
  | document d => .json d.toValue.print

end Bound

/-- What the driver reads from a cell, if its column has the type of a parameter and the cell can be read. -/
def Cell.returned? : Cell → Option Bound
  | absent => some .missing
  | bool b => some (.bool b)
  | whole n => some (.whole n)
  | real d false => some (.real d)
  | text s => some (.text s)
  | texts items => (items.mapM id).map .texts
  | moment micros => some (.instant (.ofMicros micros))
  | json written => (Json.read? written).map fun v => .document v.toDocument
  | real _ true | numeric _ | uuid _ | uuids _ | day _ | bytes | unread => none

end JobTrail
