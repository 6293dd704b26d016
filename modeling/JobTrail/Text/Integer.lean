/-! # Reading whole numbers

Decimal digits with an optional sign, checked against a range. Nothing but ASCII digits counts, so a
blank, an underscore or a lone sign is refused.
-/

namespace JobTrail

def fitsInt64 (n : Int) : Prop := -9223372036854775808 ≤ n ∧ n ≤ 9223372036854775807

instance (n : Int) : Decidable (fitsInt64 n) := inferInstanceAs (Decidable (_ ∧ _))

def fitsNat64 (n : Int) : Prop := 0 ≤ n ∧ n ≤ 18446744073709551615

instance (n : Int) : Decidable (fitsNat64 n) := inferInstanceAs (Decidable (_ ∧ _))

/-- The number that decimal digits denote, read from the left onto `start`. -/
def digitsValue (start : Nat) (digits : List Char) : Nat :=
  digits.foldl (fun n c => 10 * n + (c.toNat - '0'.toNat)) start

def readDigits? (cs : List Char) : Option Nat :=
  if ¬ cs.isEmpty ∧ cs.all Char.isDigit then some (digitsValue 0 cs) else none

def readSigned? : List Char → Option Int
  | '-' :: rest => (readDigits? rest).map fun n => -(n : Int)
  | '+' :: rest => (readDigits? rest).map fun n => (n : Int)
  | cs => (readDigits? cs).map fun n => (n : Int)

def readInt64? (cs : List Char) : Option Int := (readSigned? cs).filter fun n => fitsInt64 n

/-- Digits with an optional plus sign, up to a limit. -/
def readUpTo? (limit : Nat) (cs : List Char) : Option Nat :=
  (readDigits? (match cs with | '+' :: rest => rest | _ => cs)).filter (· ≤ limit)

end JobTrail
