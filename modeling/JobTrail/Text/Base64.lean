/-! # Base64

Bytes in groups of three as four characters, without padding. Reading is strict: characters outside
the alphabet, a lone last character and left-over bits that are not zero are refused.
-/

namespace JobTrail

/-- The characters for 0 to 63. -/
structure Base64 where
  alphabet : List Char

namespace Base64

/-- The alphabet with `+` and `/`. -/
def standard : Base64 :=
  ⟨"ABCDEFGHIJKLMNOPQRSTUVWXYZabcdefghijklmnopqrstuvwxyz0123456789+/".toList⟩

/-- The alphabet for URLs, with `-` and `_`. -/
def url : Base64 :=
  ⟨"ABCDEFGHIJKLMNOPQRSTUVWXYZabcdefghijklmnopqrstuvwxyz0123456789-_".toList⟩

def digit (code : Base64) (n : Nat) : Char := code.alphabet.getD n 'A'

def value? (code : Base64) (c : Char) : Option Nat := code.alphabet.findIdx? (· == c)

def encodeBytes (code : Base64) : List UInt8 → List Char
  | [] => []
  | [a] =>
    let n := a.toNat
    [code.digit (n / 4), code.digit (n % 4 * 16)]
  | [a, b] =>
    let n := 256 * a.toNat + b.toNat
    [code.digit (n / 1024), code.digit (n / 16 % 64), code.digit (n % 16 * 4)]
  | a :: b :: c :: rest =>
    let n := 65536 * a.toNat + 256 * b.toNat + c.toNat
    code.digit (n / 262144) :: code.digit (n / 4096 % 64) :: code.digit (n / 64 % 64)
      :: code.digit (n % 64) :: encodeBytes code rest

/-- The bytes of values below 64. -/
def joinValues : List Nat → Option (List UInt8)
  | [] => some []
  | [_] => none
  | [a, b] => if b % 16 = 0 then some [UInt8.ofNat (4 * a + b / 16)] else none
  | [a, b, c] =>
    if c % 4 = 0 then
      some [UInt8.ofNat (4 * a + b / 16), UInt8.ofNat (b % 16 * 16 + c / 4)]
    else none
  | a :: b :: c :: d :: rest =>
    (joinValues rest).map fun bytes =>
      UInt8.ofNat (4 * a + b / 16) :: UInt8.ofNat (b % 16 * 16 + c / 4)
        :: UInt8.ofNat (c % 4 * 64 + d) :: bytes

def encode (code : Base64) (bytes : List UInt8) : String := String.ofList (code.encodeBytes bytes)

def decode? (code : Base64) (s : String) : Option (List UInt8) :=
  (s.toList.mapM code.value?).bind joinValues

end Base64
end JobTrail
