import JobTrail.Decimal.Binary64

/-! # Shortest decimals

The text of a double carries the fewest digits that read back as the same double. On each decimal
grid, from one digit to seventeen, the two neighbours of the value are tried: the first grid with a
neighbour that reads back wins, and of two such neighbours the nearer one. Where the exponent is
moderate the digits are written positionally and always with a fraction, otherwise in scientific
form with a signed exponent.
-/

namespace JobTrail.Binary64

/-- Digits and the exponent of the last one: the value is `digits · 10 ^ scale`. -/
structure Decimal where
  digits : Nat
  scale : Int
deriving DecidableEq, Repr

def leadingExponent (d : Binary64) : Int :=
  let (num, den) := d.ratio
  let binary : Int := (Nat.log2 num : Int) - Nat.log2 den
  let guess := binary * 30103 / 100000
  let reaches (e : Int) : Bool := den * Nat.pow 10 e.toNat ≤ num * Nat.pow 10 (-e).toNat
  if reaches (guess + 1) then guess + 1 else if reaches guess then guess else guess - 1

/-- The neighbours of the value on the grid of `10 ^ scale`, the nearer one first; a tie puts the
even one first. -/
def gridNeighbours (d : Binary64) (scale : Int) : List Nat :=
  let (num, den) := d.ratio
  let n := num * Nat.pow 10 (-scale).toNat
  let m := den * Nat.pow 10 scale.toNat
  let below := n / m
  if nearestWhole n m = below then [below, below + 1] else [below + 1, below]

def readsBack (d : Binary64) (scale : Int) (digits : Nat) : Bool :=
  ofDecimal d.isNegative digits scale = d

/-- The first decimal with at most `limit` digits that reads back, the fewest digits first. -/
def shortestFrom (d : Binary64) (top : Int) : Nat → Nat → Decimal
  | 0, count => ⟨(gridNeighbours d (top - count)).headD 0, top - count⟩
  | limit + 1, count =>
    let scale := top - count
    match (gridNeighbours d scale).find? (readsBack d scale) with
    | some digits => ⟨digits, scale⟩
    | none => shortestFrom d top limit (count + 1)

def shortest (d : Binary64) : Decimal := shortestFrom d d.leadingExponent 17 0

def positional (digits : List Char) (exponent : Int) : List Char :=
  if exponent < 0 then
    '0' :: '.' :: (List.replicate (-exponent - 1).toNat '0' ++ digits)
  else
    let whole := exponent.toNat + 1
    let padded := digits ++ List.replicate (whole - digits.length) '0'
    let fraction := digits.drop whole
    padded.take whole ++ '.' :: (if fraction.isEmpty then ['0'] else fraction)

def scientific (digits : List Char) (exponent : Int) : List Char :=
  let mantissa := match digits with
    | first :: second :: rest => first :: '.' :: second :: rest
    | short => short
  let sign := if exponent < 0 then '-' else '+'
  mantissa ++ 'e' :: sign :: (Nat.repr exponent.natAbs).toList

def Decimal.significant (x : Decimal) : List Char :=
  ((Nat.repr x.digits).toList.reverse.dropWhile (· == '0')).reverse

/-- Positional from `0.00001` up to sixteen digits before the point, scientific elsewhere. -/
def printMagnitude (d : Binary64) : List Char :=
  if d.magnitudeBits = 0 then ['0', '.', '0']
  else
    let x := d.shortest
    let exponent := x.scale + ((Nat.repr x.digits).length - 1 : Nat)
    if -5 ≤ exponent ∧ exponent ≤ 15 then positional x.significant exponent
    else scientific x.significant exponent

def print (d : Binary64) : String :=
  String.ofList (if d.isNegative then '-' :: d.printMagnitude else d.printMagnitude)

end JobTrail.Binary64
