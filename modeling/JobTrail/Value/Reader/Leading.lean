import JobTrail.Text.Utf8
import JobTrail.Value.Reader

/-! # Reading a leading JSON value

The value that a text starts with. Reading stops where the value is complete, and what follows it is
not looked at.
-/

namespace JobTrail.Json

/-- Reads on until a bracket or a quote completes the value. -/
def readUntilFinished (scan : Scan) (state : Reading) : List Char → Option Value
  | [] => none
  | c :: rest =>
    match scanChar scan c with
    | none => none
    | some (scan, tokens) =>
      match tokens.foldlM readToken state with
      | none => none
      | some (.finished v) => some v
      | some state => readUntilFinished scan state rest

def leadingMark (marks : List Char) (cs : List Char) : List Char := (cs.take 1).filter marks.contains

/-- The longest front that can be a number: sign, digits, point with digits, exponent. -/
def leadingNumeral (cs : List Char) : List Char :=
  let sign := leadingMark ['-'] cs
  let cs := cs.drop sign.length
  let whole := cs.takeWhile Char.isDigit
  let cs := cs.dropWhile Char.isDigit
  let point := leadingMark ['.'] cs
  let fraction := if point.isEmpty then [] else (cs.drop 1).takeWhile Char.isDigit
  let cs := cs.drop (point.length + fraction.length)
  let mark := leadingMark ['e', 'E'] cs
  let cs := cs.drop 1
  let exponentSign := leadingMark ['+', '-'] cs
  let exponent := if mark.isEmpty then []
    else exponentSign ++ (cs.drop exponentSign.length).takeWhile Char.isDigit
  sign ++ whole ++ point ++ fraction ++ mark ++ exponent

def leadingWord? (cs : List Char) : Option Value :=
  if "null".toList.isPrefixOf cs then some .null
  else if "true".toList.isPrefixOf cs then some (.bool true)
  else if "false".toList.isPrefixOf cs then some (.bool false)
  else none

def isSpace (c : Char) : Bool := [' ', '\t', '\n', '\r'].contains c

def readLeading? (cs : List Char) : Option Value :=
  match cs.dropWhile isSpace with
  | [] => none
  | c :: rest =>
    if c.isDigit ∨ c = '-' then numeralValue? (leadingNumeral (c :: rest)).reverse
    else if c.isLower then leadingWord? (c :: rest)
    else readUntilFinished .gap (.value []) (c :: rest)

/-- The value that bytes start with. -/
def readLeadingBytes? (bytes : ByteArray) : Option Value := readLeading? (Utf8.leading bytes.data.toList)

end JobTrail.Json
