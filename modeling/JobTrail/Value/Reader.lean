import JobTrail.Decimal.Binary64
import JobTrail.Text.Hex
import JobTrail.Value

/-! # Reading JSON

Reading goes in two passes, both folds: characters into tokens, and tokens into a value with a stack
of the brackets that are open. The grammar is the strict one of RFC 8259. Nesting deeper than 127
brackets is refused, and so are lone surrogates, raw control characters inside a string, and numbers
too large for a double. A repeated key keeps its first place and its last value.
-/

namespace JobTrail

namespace Json

structure Numeral where
  negative : Bool
  whole : List Char
  /-- The digits after the point, when there is a point. -/
  fraction : Option (List Char)
  /-- The sign and the digits of the exponent, when there is one. -/
  exponent : Option (Bool × List Char)

def splitMinus : List Char → Bool × List Char
  | '-' :: rest => (true, rest)
  | cs => (false, cs)

def splitDigits (cs : List Char) : List Char × List Char :=
  (cs.takeWhile Char.isDigit, cs.dropWhile Char.isDigit)

def splitFraction? : List Char → Option (Option (List Char) × List Char)
  | '.' :: rest =>
    let (digits, rest) := splitDigits rest
    if digits.isEmpty then none else some (some digits, rest)
  | cs => some (none, cs)

/-- The exponent, which ends the text when there is one. -/
def readExponent? : List Char → Option (Option (Bool × List Char))
  | [] => some none
  | mark :: rest =>
    let (down, digits) := match rest with
      | '-' :: tail => (true, tail)
      | '+' :: tail => (false, tail)
      | _ => (false, rest)
    if (mark = 'e' ∨ mark = 'E') ∧ ¬ digits.isEmpty ∧ digits.all Char.isDigit then
      some (some (down, digits))
    else none

def Numeral.ofChars? (cs : List Char) : Option Numeral :=
  let (negative, cs) := splitMinus cs
  let (whole, cs) := splitDigits cs
  if whole.isEmpty ∨ (1 < whole.length ∧ whole.head? = some '0') then none
  else do
    let (fraction, cs) ← splitFraction? cs
    let exponent ← readExponent? cs
    some ⟨negative, whole, fraction, exponent⟩

def Numeral.shift (x : Numeral) : Int :=
  match x.exponent with
  | none => 0
  | some (down, digits) => if down then -(digitsValue 0 digits : Int) else digitsValue 0 digits

/-- A whole number that fits 64 bits stays whole, except that `-0` is a double. Anything else is the
nearest double, unless that is infinite. -/
def Numeral.number? (x : Numeral) : Option Number :=
  let whole := digitsValue 0 x.whole
  let signed : Int := if x.negative then -(whole : Int) else whole
  if x.fraction = none ∧ x.exponent.isNone ∧ ¬ (x.negative ∧ whole = 0)
      ∧ (fitsInt64 signed ∨ fitsNat64 signed) then
    some (.int signed)
  else
    let fraction := x.fraction.getD []
    let d := Binary64.ofDecimal x.negative (digitsValue whole fraction) (x.shift - fraction.length)
    if d.IsFinite then some (.real d) else none

inductive Token where
  | openRecord
  | closeRecord
  | openSequence
  | closeSequence
  | colon
  | comma
  | scalar (v : Value)

/-- Where the scan of the characters stands. Collected characters are in reverse. -/
inductive Scan where
  | gap
  | word (collected : List Char)
  | numeral (collected : List Char)
  | string (collected : List Char)
  | escape (collected : List Char)
  /-- Inside `\u`: the code so far, how many digits are missing, and a high surrogate before it. -/
  | code (collected : List Char) (high : Option Nat) (value missing : Nat)
  /-- After a high surrogate: a backslash has to follow, then a `u`. -/
  | pairEscape (collected : List Char) (high : Nat)
  | pairMark (collected : List Char) (high : Nat)

def wordValue? (collected : List Char) : Option Value :=
  match String.ofList collected.reverse with
  | "null" => some .null
  | "true" => some (.bool true)
  | "false" => some (.bool false)
  | _ => none

def numeralValue? (collected : List Char) : Option Value :=
  ((Numeral.ofChars? collected.reverse).bind Numeral.number?).map .number

def isNumeralChar (c : Char) : Bool :=
  c.isDigit || c == '-' || c == '+' || c == '.' || c == 'e' || c == 'E'

def scanGap (c : Char) : Option (Scan × List Token) :=
  match c with
  | ' ' | '\t' | '\n' | '\r' => some (.gap, [])
  | '\x7b' => some (.gap, [.openRecord])
  | '\x7d' => some (.gap, [.closeRecord])
  | '[' => some (.gap, [.openSequence])
  | ']' => some (.gap, [.closeSequence])
  | ':' => some (.gap, [.colon])
  | ',' => some (.gap, [.comma])
  | '"' => some (.string [], [])
  | _ =>
    if c.isLower then some (.word [c], [])
    else if c.isDigit ∨ c = '-' then some (.numeral [c], [])
    else none

def scanAfter (v : Option Value) (c : Char) : Option (Scan × List Token) := do
  let v ← v
  let (scan, tokens) ← scanGap c
  some (scan, .scalar v :: tokens)

def scanEscape (collected : List Char) (c : Char) : Option Scan :=
  match c with
  | '"' => some (.string ('"' :: collected))
  | '\\' => some (.string ('\\' :: collected))
  | '/' => some (.string ('/' :: collected))
  | 'b' => some (.string ('\x08' :: collected))
  | 'f' => some (.string ('\x0c' :: collected))
  | 'n' => some (.string ('\n' :: collected))
  | 'r' => some (.string ('\r' :: collected))
  | 't' => some (.string ('\t' :: collected))
  | 'u' => some (.code collected none 0 4)
  | _ => none

def scanCode (collected : List Char) (high : Option Nat) (value : Nat) : Option Scan :=
  match high with
  | none =>
    if 0xD800 ≤ value ∧ value < 0xDC00 then some (.pairEscape collected value)
    else if 0xDC00 ≤ value ∧ value < 0xE000 then none
    else some (.string (Char.ofNat value :: collected))
  | some high =>
    if 0xDC00 ≤ value ∧ value < 0xE000 then
      some (.string (Char.ofNat (0x10000 + (high - 0xD800) * 0x400 + (value - 0xDC00)) :: collected))
    else none

def scanChar (scan : Scan) (c : Char) : Option (Scan × List Token) :=
  match scan with
  | .gap => scanGap c
  | .word cs => if c.isLower then some (.word (c :: cs), []) else scanAfter (wordValue? cs) c
  | .numeral cs =>
    if isNumeralChar c then some (.numeral (c :: cs), []) else scanAfter (numeralValue? cs) c
  | .string cs =>
    if c = '"' then some (.gap, [.scalar (.text (String.ofList cs.reverse))])
    else if c = '\\' then some (.escape cs, [])
    else if c.toNat < 0x20 then none
    else some (.string (c :: cs), [])
  | .escape cs => (scanEscape cs c).map (·, [])
  | .code cs high value missing => do
    let digit ← hexValue? c
    let value := 16 * value + digit
    let scan ← if missing ≤ 1 then scanCode cs high value
      else some (.code cs high value (missing - 1))
    some (scan, [])
  | .pairEscape cs high => if c = '\\' then some (.pairMark cs high, []) else none
  | .pairMark cs high => if c = 'u' then some (.code cs (some high) 0 4, []) else none

def scanEnd : Scan → Option (List Token)
  | .gap => some []
  | .word cs => (wordValue? cs).map ([.scalar ·])
  | .numeral cs => (numeralValue? cs).map ([.scalar ·])
  | _ => none

/-- The tokens of a text from a standing of the scan; those found so far are in reverse. -/
def tokensFrom (scan : Scan) (found : List Token) : List Char → Option (List Token)
  | [] => (scanEnd scan).map fun last => (last.reverse ++ found).reverse
  | c :: rest =>
    match scanChar scan c with
    | none => none
    | some (scan, tokens) => tokensFrom scan (tokens.reverse ++ found) rest

inductive Frame where
  | record (entries : Record) (key : String)
  | sequence (reversed : List Value)

inductive Reading where
  | value (stack : List Frame)
  | firstItem (stack : List Frame)
  | firstKey (stack : List Frame)
  | key (stack : List Frame) (entries : Record)
  | colon (stack : List Frame) (entries : Record) (key : String)
  | afterItem (stack : List Frame) (reversed : List Value)
  | afterEntry (stack : List Frame) (entries : Record)
  | finished (v : Value)

def depthLimit : Nat := 127

def place (v : Value) : List Frame → Reading
  | [] => .finished v
  | .record entries key :: stack => .afterEntry stack (entries.insert key v)
  | .sequence reversed :: stack => .afterItem stack (v :: reversed)

def readValue (stack : List Frame) : Token → Option Reading
  | .scalar v => some (place v stack)
  | .openRecord => if stack.length < depthLimit then some (.firstKey stack) else none
  | .openSequence => if stack.length < depthLimit then some (.firstItem stack) else none
  | _ => none

def readKey (stack : List Frame) (entries : Record) : Token → Option Reading
  | .scalar (.text key) => some (.colon stack entries key)
  | _ => none

def readToken (state : Reading) (token : Token) : Option Reading :=
  match state with
  | .value stack => readValue stack token
  | .firstItem stack =>
    match token with
    | .closeSequence => some (place (.sequence []) stack)
    | _ => readValue (.sequence [] :: stack) token
  | .firstKey stack =>
    match token with
    | .closeRecord => some (place (.record []) stack)
    | _ => readKey stack [] token
  | .key stack entries => readKey stack entries token
  | .colon stack entries key =>
    match token with
    | .colon => some (.value (.record entries key :: stack))
    | _ => none
  | .afterItem stack reversed =>
    match token with
    | .comma => some (.value (.sequence reversed :: stack))
    | .closeSequence => some (place (.sequence reversed.reverse) stack)
    | _ => none
  | .afterEntry stack entries =>
    match token with
    | .comma => some (.key stack entries)
    | .closeRecord => some (place (.record entries) stack)
    | _ => none
  | .finished _ => none

def read? (s : String) : Option Value := do
  let tokens ← tokensFrom .gap [] s.toList
  match ← tokens.foldlM readToken (.value []) with
  | .finished v => some v
  | _ => none

def readBytes? (bytes : ByteArray) : Option Value := (String.fromUTF8? bytes).bind read?

end Json
end JobTrail
