import JobTrail.Text.Hex
import JobTrail.Text.Utf8

/-! # Percent encoding

Decoding replaces `%` and two hexadecimal digits by the byte they name and leaves every other `%`
alone. Encoding writes the bytes of a character outside the allowed set in uppercase digits.
Form fields are the pairs of a query string: `&` between them, `=` inside, `+` for a space.
-/

namespace JobTrail.Percent

def pairByte? (high low : UInt8) : Option UInt8 := do
  let h ← hexValue? (Char.ofNat high.toNat)
  let l ← hexValue? (Char.ofNat low.toNat)
  some (UInt8.ofNat (16 * h + l))

def decode : List UInt8 → List UInt8
  | 0x25 :: high :: low :: rest =>
    match pairByte? high low with
    | some b => b :: decode rest
    | none => 0x25 :: decode (high :: low :: rest)
  | b :: rest => b :: decode rest
  | [] => []

def utf8 (cs : List Char) : List UInt8 := (String.ofList cs).toUTF8.data.toList

def decodeText? (s : String) : Option String :=
  String.fromUTF8? ⟨(decode s.toUTF8.data.toList).toArray⟩

def encodeByte (b : UInt8) : List Char :=
  ['%', (hexDigit (b.toNat / 16)).toUpper, (hexDigit (b.toNat % 16)).toUpper]

def encodeChar (allowed : Char → Bool) (c : Char) : List Char :=
  if allowed c then [c] else (utf8 [c]).flatMap encodeByte

def encode (allowed : Char → Bool) (cs : List Char) : List Char := cs.flatMap (encodeChar allowed)

/-- A key or a value of a form: `+` is a space, and bytes that are not UTF-8 are replaced. -/
def decodeFormPart (cs : List Char) : String :=
  Utf8.decodeLossy (decode ((utf8 cs).map fun b => if b = 0x2B then 0x20 else b))

def formFields (s : String) : List (String × String) :=
  (s.toList.splitOn '&').filterMap fun piece =>
    if piece.isEmpty then none
    else
      let key := piece.takeWhile (· ≠ '=')
      some (decodeFormPart key, decodeFormPart ((piece.dropWhile (· ≠ '=')).drop 1))

end JobTrail.Percent
