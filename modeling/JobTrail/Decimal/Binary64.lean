/-! # Binary floating point, exactly

A double is its 64 bits. Reading a decimal and rounding to single precision are done on natural
numbers: the value of a quotient is the nearest double, and a tie goes to the even neighbour.
-/

namespace JobTrail

/-- A double, by its bits: sign, eleven bits of exponent, fifty-two of fraction. -/
structure Binary64 where
  bits : UInt64
deriving DecidableEq, Inhabited

namespace Binary64

/-- The bits of positive infinity, below which every pattern is a finite magnitude. -/
def infinityBits : Nat := 0x7FF0000000000000

def signBit : Nat := 0x8000000000000000

/-- The weight of the bit in front of the fraction, which is not stored. -/
def hiddenBit : Nat := 0x10000000000000

def isNegative (d : Binary64) : Bool := signBit ≤ d.bits.toNat

def magnitudeBits (d : Binary64) : Nat := d.bits.toNat % signBit

def IsFinite (d : Binary64) : Prop := d.magnitudeBits < infinityBits

instance (d : Binary64) : Decidable d.IsFinite := inferInstanceAs (Decidable (_ < _))

def ofMagnitude (negative : Bool) (bits : Nat) : Binary64 :=
  ⟨UInt64.ofNat (if negative then signBit + bits else bits)⟩

/-- The magnitude of a finite double is `significand · 2 ^ exponent`. -/
def significand (d : Binary64) : Nat :=
  if d.magnitudeBits < hiddenBit then d.magnitudeBits else hiddenBit + d.magnitudeBits % hiddenBit

def exponent (d : Binary64) : Int :=
  if d.magnitudeBits < hiddenBit then -1074 else (d.magnitudeBits / hiddenBit : Nat) - 1075

def ratio (d : Binary64) : Nat × Nat :=
  (d.significand * Nat.pow 2 d.exponent.toNat, Nat.pow 2 (-d.exponent).toNat)

/-- The whole number nearest to a quotient; a tie goes to the even one. -/
def nearestWhole (num den : Nat) : Nat :=
  let whole := num / den
  let twice := 2 * (num % den)
  if den < twice ∨ (twice = den ∧ whole % 2 = 1) then whole + 1 else whole

/-- Rounds `num / den` to a format with `precision` bits whose smallest step is `2 ^ least`: the
answer is the significand and the exponent of the step. -/
def roundRatio (precision : Nat) (least : Int) (num den : Nat) : Nat × Int :=
  let guess : Int := (Nat.log2 num : Int) - Nat.log2 den - (precision - 1 : Nat)
  let scaled (e : Int) : Nat × Nat := (num * Nat.pow 2 (-e).toNat, den * Nat.pow 2 e.toNat)
  let (n, d) := scaled guess
  let step := max least (if n < d * Nat.pow 2 (precision - 1) then guess - 1 else guess)
  let (n, d) := scaled step
  (nearestWhole n d, step)

def nearestBits (num den : Nat) : Nat :=
  if num = 0 then 0
  else
    let (m, step) := roundRatio 53 (-1074) num den
    min infinityBits ((step + 1074).toNat * hiddenBit + m)

def nearest (negative : Bool) (num den : Nat) : Binary64 :=
  ofMagnitude negative (nearestBits num den)

/-- The double nearest to `digits · 10 ^ scale`. Scales far outside the range of doubles are
settled by counting digits, so no power of ten larger than the format needs is formed. -/
def ofDecimal (negative : Bool) (digits : Nat) (scale : Int) : Binary64 :=
  let top : Int := (Nat.log2 digits : Int) / 3 + 1 + scale
  if digits = 0 ∨ top < -400 then ofMagnitude negative 0
  else if scale > 400 then ofMagnitude negative infinityBits
  else nearest negative (digits * Nat.pow 10 scale.toNat) (Nat.pow 10 (-scale).toNat)

def ofInt (n : Int) : Binary64 := nearest (n < 0) n.natAbs 1

def toSingle (d : Binary64) : Binary64 :=
  if d.significand = 0 ∨ ¬ d.IsFinite then d
  else
    let (num, den) := d.ratio
    let (m, step) := roundRatio 24 (-149) num den
    if Nat.pow 2 128 ≤ m * Nat.pow 2 step.toNat ∧ 0 ≤ step then ofMagnitude d.isNegative infinityBits
    else nearest d.isNegative (m * Nat.pow 2 step.toNat) (Nat.pow 2 (-step).toNat)

end Binary64
end JobTrail
