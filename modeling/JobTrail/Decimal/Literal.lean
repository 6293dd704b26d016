import JobTrail.Decimal.Binary64
import JobTrail.Text.Integer

/-! # Reading decimal numbers

A sign of either kind, digits with a point anywhere among them, and an exponent; or one of the words
for the values that are not finite, in any case. The result is the nearest double.
-/

namespace JobTrail.Binary64

def notANumber : Binary64 := ofMagnitude false (infinityBits + hiddenBit / 2)

/-- Digits with a point; the count tells how many stand behind it. -/
def readMantissa? (cs : List Char) : Option (Nat × Nat) :=
  let whole := cs.takeWhile (· ≠ '.')
  let behind := (cs.dropWhile (· ≠ '.')).drop 1
  (readDigits? (whole ++ behind)).map (·, behind.length)

def readMagnitude? (negative : Bool) (cs : List Char) : Option Binary64 := do
  match String.ofList (cs.map Char.toLower) with
  | "inf" | "infinity" => some (ofMagnitude negative infinityBits)
  | "nan" => some notANumber
  | _ =>
    let isMark (c : Char) : Bool := c == 'e' || c == 'E'
    let (digits, places) ← readMantissa? (cs.takeWhile (!isMark ·))
    let shift ← match cs.dropWhile (!isMark ·) with
      | [] => some 0
      | _ :: exponent => readSigned? exponent
    some (ofDecimal negative digits (shift - places))

def read? : List Char → Option Binary64
  | '-' :: cs => readMagnitude? true cs
  | '+' :: cs => readMagnitude? false cs
  | cs => readMagnitude? false cs

end JobTrail.Binary64
