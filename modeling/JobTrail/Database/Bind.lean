import JobTrail.Value.Printer

/-! # Binding values

The typed parameter that a value is sent as. Lists of texts are arrays; other sequences and records
are JSON. A point of time is counted in microseconds from the start of 2000, cut off toward it.
-/

namespace JobTrail

inductive Parameter where
  /-- No value, sent as a text. -/
  | missing
  | bool (b : Bool)
  /-- A whole number of 64 bits with a sign. -/
  | whole (n : Int)
  | real (d : Binary64)
  | text (s : String)
  | texts (items : List String)
  | moment (micros : Int)
  | json (text : String)
deriving DecidableEq

def Parameter.typeName : Parameter → String
  | missing | text _ => "TEXT"
  | bool _ => "BOOL"
  | whole _ => "INT8"
  | real _ => "FLOAT8"
  | texts _ => "TEXT[]"
  | moment _ => "TIMESTAMPTZ"
  | json _ => "JSONB"

def Instant.year2000 : Int := 946684800

def Instant.toMicros (t : Instant) : Int :=
  ((t.seconds - year2000) * 1000000000 + t.nanos).tdiv 1000

def Instant.ofMicros (micros : Int) : Instant :=
  ⟨year2000 + micros.fdiv 1000000, (micros.fmod 1000000).toNat * 1000⟩

def Number.bind : Number → Parameter
  | .int n => if fitsInt64 n then .whole n else .real (Binary64.ofInt n)
  | .real d => .real d

def Value.bind : Value → Parameter
  | .null => .missing
  | .bool b => .bool b
  | .number n => n.bind
  | .text s => .text s
  | .instant t => .moment t.toMicros
  | .sequence items =>
    match items.mapM Value.text? with
    | some texts => .texts texts
    | none => .json (Value.sequence items).print
  | .record entries => .json (Value.record entries).print

end JobTrail
