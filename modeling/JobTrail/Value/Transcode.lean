import JobTrail.Text.Casing
import JobTrail.Value

/-! # Transcoding records

Renaming the keys of every record inside a value, at every depth. Toward the wire the keys take the
camel spelling and instants become their ISO text; toward storage the keys take the snake spelling
and instants stay. When two keys of a record get one spelling, the first keeps the place and the
last gives the value.
-/

namespace JobTrail

inductive Spelling where
  | camel
  | snake
deriving DecidableEq, Repr

def Spelling.rename : Spelling → String → String
  | camel => Casing.camel
  | snake => Casing.snake

namespace Value

mutual

def transcode (spelling : Spelling) : Value → Value
  | record entries => record (Record.ofList (transcodeEntries spelling entries))
  | sequence items => sequence (transcodeItems spelling items)
  | instant t =>
    match spelling with
    | .camel => text t.iso
    | .snake => instant t
  | null => null
  | bool b => bool b
  | number n => number n
  | text s => text s

def transcodeEntries (spelling : Spelling) : List (String × Value) → List (String × Value)
  | [] => []
  | (k, v) :: rest =>
    (spelling.rename k, transcode spelling v) :: transcodeEntries spelling rest

def transcodeItems (spelling : Spelling) : List Value → List Value
  | [] => []
  | v :: rest => transcode spelling v :: transcodeItems spelling rest

end

def toCamel (v : Value) : Value := v.transcode .camel

def toSnake (v : Value) : Value := v.transcode .snake

end Value

/-- The wire form of a stored row, still a record, so that keys can be added. -/
def Record.toCamel (row : Record) : Record :=
  Record.ofList (row.map fun (key, v) => (Casing.camel key, v.toCamel))

/-- The wire form of a stored row. -/
def Record.rowToCamel (row : Record) : Value := .record row.toCamel

def Record.toSnake (row : Record) : Record :=
  Record.ofList (Value.transcodeEntries .snake row)

def Record.rowsToCamel (rows : List Record) : Value :=
  (Value.sequence (rows.map Value.record)).toCamel

end JobTrail
