import JobTrail.Text.Utf8

/-! # Text in a named encoding

A byte order mark decides; without one the label does. Labels of the Latin family all mean the code
page 1252, and an unknown label means UTF-8. No byte is an error: what cannot be read becomes U+FFFD.
-/

namespace JobTrail

inductive Charset where
  | utf8
  | utf16 (bigEndian : Bool)
  | latin
deriving DecidableEq, Repr

namespace Charset

def latinHigh : List Nat :=
  [0x20AC, 0x81, 0x201A, 0x192, 0x201E, 0x2026, 0x2020, 0x2021, 0x2C6, 0x2030, 0x160, 0x2039, 0x152,
    0x8D, 0x17D, 0x8F, 0x90, 0x2018, 0x2019, 0x201C, 0x201D, 0x2022, 0x2013, 0x2014, 0x2DC, 0x2122,
    0x161, 0x203A, 0x153, 0x9D, 0x17E, 0x178]

def latinChar (b : UInt8) : Char :=
  let n := b.toNat
  Char.ofNat (if 0x80 ≤ n ∧ n < 0xA0 then latinHigh.getD (n - 0x80) n else n)

def latinLabels : List String :=
  ["ansi_x3.4-1968", "ascii", "cp1252", "cp819", "csisolatin1", "ibm819", "iso-8859-1", "iso-ir-100",
    "iso8859-1", "iso88591", "iso_8859-1", "iso_8859-1:1987", "l1", "latin1", "us-ascii",
    "windows-1252", "x-cp1252"]

def ofLabel (label : String) : Charset :=
  let name := String.ofList (label.toList.map Char.toLower)
  if latinLabels.contains name then latin
  else if ["utf-16", "utf-16le", "ucs-2", "unicode", "csunicode", "iso-10646-ucs-2",
      "unicodefeff"].contains name then utf16 false
  else if ["utf-16be", "unicodefffe"].contains name then utf16 true
  else utf8

/-- The units of two bytes; an odd byte at the end has no partner. -/
def units (bigEndian : Bool) : List UInt8 → List (Option Nat)
  | a :: b :: rest =>
    some (if bigEndian then 256 * a.toNat + b.toNat else 256 * b.toNat + a.toNat)
      :: units bigEndian rest
  | [_] => [none]
  | [] => []

def isHigh (u : Nat) : Bool := 0xD800 ≤ u && u < 0xDC00
def isLow (u : Nat) : Bool := 0xDC00 ≤ u && u < 0xE000

/-- Joins pairs of surrogates; half a pair is replaced. -/
def joinUnits : List (Option Nat) → List Char
  | some u :: some w :: rest =>
    if isHigh u ∧ isLow w then
      Char.ofNat (0x10000 + 0x400 * (u - 0xD800) + (w - 0xDC00)) :: joinUnits rest
    else if isHigh u ∨ isLow u then Utf8.replacement :: joinUnits (some w :: rest)
    else Char.ofNat u :: joinUnits (some w :: rest)
  | [some u] => [if isHigh u ∨ isLow u then Utf8.replacement else Char.ofNat u]
  | some u :: none :: _ =>
    if isHigh u ∨ isLow u then [Utf8.replacement] else [Char.ofNat u, Utf8.replacement]
  | none :: _ => [Utf8.replacement]
  | [] => []

def decodeMarked (bytes : List UInt8) : Charset → String
  | utf8 => Utf8.decodeLossy bytes
  | utf16 bigEndian => String.ofList (joinUnits (units bigEndian bytes))
  | latin => String.ofList (bytes.map latinChar)

def decode (c : Charset) (bytes : List UInt8) : String :=
  match bytes with
  | 0xEF :: 0xBB :: 0xBF :: rest => decodeMarked rest utf8
  | 0xFF :: 0xFE :: rest => decodeMarked rest (utf16 false)
  | 0xFE :: 0xFF :: rest => decodeMarked rest (utf16 true)
  | _ => decodeMarked bytes c

end Charset
end JobTrail
