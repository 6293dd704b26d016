/-! # Blank characters

The characters with the Unicode property White_Space, and the trimming and splitting that use them.
U+200B and U+FEFF are not among them.
-/

namespace JobTrail

/-- The Unicode property White_Space. -/
def isBlank (c : Char) : Bool :=
  let n := c.toNat
  (0x09 ≤ n && n ≤ 0x0D) || n == 0x20 || n == 0x85 || n == 0xA0 || n == 0x1680
    || (0x2000 ≤ n && n ≤ 0x200A) || n == 0x2028 || n == 0x2029 || n == 0x202F || n == 0x205F
    || n == 0x3000

def trimChars (cs : List Char) : List Char :=
  ((cs.dropWhile isBlank).reverse.dropWhile isBlank).reverse

def trimBlank (s : String) : String := String.ofList (trimChars s.toList)

def splitFirst (mark : Char) : List Char → Option (List Char × List Char)
  | [] => none
  | c :: rest =>
    if c = mark then some ([], rest)
    else (splitFirst mark rest).map fun (before, after) => (c :: before, after)

/-- The pieces between the occurrences of a character; a text without it is one piece. -/
def pieces (mark : Char) (cs : List Char) : List (List Char) := cs.splitOn mark

end JobTrail
