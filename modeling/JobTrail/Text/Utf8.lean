/-! # Decoding UTF-8 with replacement

Every longest run of bytes that starts a character and cannot go on becomes one U+FFFD, and reading
resumes at the byte that broke it.
-/

namespace JobTrail.Utf8

/-- A character that has begun: its bits so far, how many bytes are missing, and the range in which
the next byte has to lie. -/
structure Pending where
  value : Nat
  missing : Nat
  low : Nat
  high : Nat

def replacement : Char := '\ufffd'

inductive Lead where
  | complete (c : Char)
  | begins (pending : Pending)
  | invalid

/-- The ranges leave out overlong forms, surrogates and numbers past U+10FFFF. -/
def lead (b : Nat) : Lead :=
  if b < 0x80 then .complete (Char.ofNat b)
  else if b < 0xC2 then .invalid
  else if b < 0xE0 then .begins ⟨b - 0xC0, 1, 0x80, 0xBF⟩
  else if b = 0xE0 then .begins ⟨0, 2, 0xA0, 0xBF⟩
  else if b = 0xED then .begins ⟨0x0D, 2, 0x80, 0x9F⟩
  else if b < 0xF0 then .begins ⟨b - 0xE0, 2, 0x80, 0xBF⟩
  else if b = 0xF0 then .begins ⟨0, 3, 0x90, 0xBF⟩
  else if b < 0xF4 then .begins ⟨b - 0xF0, 3, 0x80, 0xBF⟩
  else if b = 0xF4 then .begins ⟨4, 3, 0x80, 0x8F⟩
  else .invalid

def decodeFrom : Option Pending → List UInt8 → List Char
  | none, [] => []
  | some _, [] => [replacement]
  | pending, byte :: rest =>
    let b := byte.toNat
    let continued : Option Pending :=
      pending.filter fun p => p.low ≤ b ∧ b ≤ p.high
    match continued with
    | some p =>
      let value := 64 * p.value + b % 64
      if p.missing ≤ 1 then Char.ofNat value :: decodeFrom none rest
      else decodeFrom (some ⟨value, p.missing - 1, 0x80, 0xBF⟩) rest
    | none =>
      let broken := if pending.isSome then [replacement] else []
      broken ++ match lead b with
        | .complete c => c :: decodeFrom none rest
        | .begins p => decodeFrom (some p) rest
        | .invalid => replacement :: decodeFrom none rest

def decodeLossy (bytes : List UInt8) : String := String.ofList (decodeFrom none bytes)

/-- The characters up to the first byte that is out of place. -/
def leadingFrom : Option Pending → List UInt8 → List Char
  | _, [] => []
  | some p, byte :: rest =>
    let b := byte.toNat
    let value := 64 * p.value + b % 64
    if b < p.low ∨ p.high < b then []
    else if p.missing ≤ 1 then Char.ofNat value :: leadingFrom none rest
    else leadingFrom (some ⟨value, p.missing - 1, 0x80, 0xBF⟩) rest
  | none, byte :: rest =>
    match lead byte.toNat with
    | .complete c => c :: leadingFrom none rest
    | .begins p => leadingFrom (some p) rest
    | .invalid => []

def leading (bytes : List UInt8) : List Char := leadingFrom none bytes

end JobTrail.Utf8
