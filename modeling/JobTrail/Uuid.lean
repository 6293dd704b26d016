import JobTrail.Text.Hex

/-! # UUIDs

The spellings of a UUID that ids may have: five groups of hexadecimal digits between hyphens, the
same in braces or after `urn:uuid:`, and 32 digits without hyphens. Digits are of either case, and
nothing may stand around them.
-/

namespace JobTrail.Uuid

def groups : List Nat := [8, 4, 4, 4, 12]

def digits? (cs : List Char) : Option (List Nat) := cs.mapM hexValue?

def hyphenated? (cs : List Char) : Option (List Nat) :=
  let parts := cs.splitOn '-'
  if parts.map List.length = groups then digits? parts.flatten else none

def parseChars? (cs : List Char) : Option (List Nat) :=
  match cs with
  | '\x7b' :: rest => if rest.getLast? = some '\x7d' then hyphenated? rest.dropLast else none
  | cs =>
    if (cs.take 9).map Char.toLower = "urn:uuid:".toList then hyphenated? (cs.drop 9)
    else if cs.length = 32 then digits? cs
    else hyphenated? cs

def parse? (s : String) : Option (List Nat) := parseChars? s.toList

def isUuid (s : String) : Bool := (parse? s).isSome

def print (digits : List Nat) : String :=
  let cs := digits.map hexDigit
  String.ofList (cs.take 8 ++ '-' :: (cs.drop 8).take 4 ++ '-' :: (cs.drop 12).take 4
    ++ '-' :: (cs.drop 16).take 4 ++ '-' :: cs.drop 20)

def ofRandom (bytes : List UInt8) : String :=
  let marked := bytes.zipIdx.map fun (b, i) =>
    if i = 6 then 0x40 ||| (b &&& 0x0F) else if i = 8 then 0x80 ||| (b &&& 0x3F) else b
  print (marked.flatMap fun b => [b.toNat / 16, b.toNat % 16])

end JobTrail.Uuid
