import JobTrail.Decimal.Shortest
import JobTrail.Text.Hex
import JobTrail.Value

/-! # JSON text of a value

Compact text without spaces, keys in record order. A string escapes the quote, the backslash and the
control characters below U+0020, and nothing else. An instant is written as its ISO text. The
spread form puts each entry on a line of its own, indented by two spaces a level.
-/

namespace JobTrail

def Number.print : Number → String
  | .int n => toString n
  | .real d => d.print

def escapeJson (c : Char) : List Char :=
  if c = '"' then ['\\', '"']
  else if c = '\\' then ['\\', '\\']
  else if c.toNat < 0x20 then
    match c.toNat with
    | 8 => ['\\', 'b']
    | 9 => ['\\', 't']
    | 10 => ['\\', 'n']
    | 12 => ['\\', 'f']
    | 13 => ['\\', 'r']
    | n => ['\\', 'u', '0', '0', hexDigit (n / 16), hexDigit (n % 16)]
  else [c]

def quoteJson (s : String) : String :=
  String.ofList ('"' :: (s.toList.flatMap escapeJson ++ ['"']))

namespace Value

mutual

def print : Value → String
  | null => "null"
  | bool b => if b then "true" else "false"
  | number n => n.print
  | text s => quoteJson s
  | instant t => quoteJson t.iso
  | record entries => "\x7b" ++ ",".intercalate (printEntries entries) ++ "\x7d"
  | sequence items => "[" ++ ",".intercalate (printItems items) ++ "]"

def printEntries : List (String × Value) → List String
  | [] => []
  | (k, v) :: rest => (quoteJson k ++ ":" ++ print v) :: printEntries rest

def printItems : List Value → List String
  | [] => []
  | v :: rest => print v :: printItems rest

end

/-- Lines between brackets, one level deeper than the brackets; nothing between them when empty. -/
def spreadLines (opening closing : String) (depth : Nat) (lines : List String) : String :=
  if lines.isEmpty then opening ++ closing
  else
    let indent (n : Nat) := "\n" ++ String.ofList (List.replicate (2 * n) ' ')
    opening ++ indent (depth + 1) ++ ("," ++ indent (depth + 1)).intercalate lines
      ++ indent depth ++ closing

mutual

def printSpread (depth : Nat) : Value → String
  | record entries => spreadLines "\x7b" "\x7d" depth (spreadEntries (depth + 1) entries)
  | sequence items => spreadLines "[" "]" depth (spreadItems (depth + 1) items)
  | null => "null"
  | bool b => if b then "true" else "false"
  | number n => n.print
  | text s => quoteJson s
  | instant t => quoteJson t.iso

def spreadEntries (depth : Nat) : List (String × Value) → List String
  | [] => []
  | (k, v) :: rest => (quoteJson k ++ ": " ++ printSpread depth v) :: spreadEntries depth rest

def spreadItems (depth : Nat) : List Value → List String
  | [] => []
  | v :: rest => printSpread depth v :: spreadItems depth rest

end

mutual

/-- The value that the JSON text denotes: every instant has become its ISO text. -/
def plain : Value → Value
  | instant t => text t.iso
  | record entries => record (plainEntries entries)
  | sequence items => sequence (plainItems items)
  | null => null
  | bool b => bool b
  | number n => number n
  | text s => text s

def plainEntries : List (String × Value) → List (String × Value)
  | [] => []
  | (k, v) :: rest => (k, plain v) :: plainEntries rest

def plainItems : List Value → List Value
  | [] => []
  | v :: rest => plain v :: plainItems rest

end

end Value
end JobTrail
