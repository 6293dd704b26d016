/-! # Hexadecimal

Bytes as two digits each, written in lowercase and read in either case.
-/

namespace JobTrail

def hexDigit (n : Nat) : Char := "0123456789abcdef".toList.getD n '0'

def hexValue? (c : Char) : Option Nat :=
  if '0' ≤ c ∧ c ≤ '9' then some (c.toNat - '0'.toNat)
  else if 'a' ≤ c ∧ c ≤ 'f' then some (c.toNat - 'a'.toNat + 10)
  else if 'A' ≤ c ∧ c ≤ 'F' then some (c.toNat - 'A'.toNat + 10)
  else none

namespace Hex

def encodeBytes : List UInt8 → List Char
  | [] => []
  | b :: rest => hexDigit (b.toNat / 16) :: hexDigit (b.toNat % 16) :: encodeBytes rest

def decodeChars : List Char → Option (List UInt8)
  | [] => some []
  | [_] => none
  | high :: low :: rest =>
    match hexValue? high, hexValue? low, decodeChars rest with
    | some h, some l, some bytes => some (UInt8.ofNat (16 * h + l) :: bytes)
    | _, _, _ => none

def encode (bytes : ByteArray) : String := String.ofList (encodeBytes bytes.data.toList)

def decode? (s : String) : Option ByteArray := (decodeChars s.toList).map fun bs => ⟨bs.toArray⟩

end Hex
end JobTrail
