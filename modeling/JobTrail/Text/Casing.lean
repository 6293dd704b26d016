/-! # Key spelling

Storage columns are spelled `applied_date`, wire keys `appliedDate`. Both spellings are reached by
one scan from left to right, and only ASCII letters mark a boundary. The two scans are not inverse
on every key: `a__b` reads `a_B` on the wire, and `_id` reads `Id`.
-/

namespace JobTrail.Casing

/-- An underscore in front of a lowercase letter is dropped and the letter raised. -/
def camelChars : List Char → List Char
  | [] => []
  | [c] => [c]
  | c :: d :: rest =>
    if c = '_' ∧ d.isLower then d.toUpper :: camelChars rest else c :: camelChars (d :: rest)

/-- Past the first character, a capital becomes an underscore and its lowercase letter. -/
def snakeTail : List Char → List Char
  | [] => []
  | c :: rest => if c.isUpper then '_' :: c.toLower :: snakeTail rest else c :: snakeTail rest

/-- The first character is lowered without an underscore in front. -/
def snakeChars : List Char → List Char
  | [] => []
  | c :: rest => c.toLower :: snakeTail rest

def camel (key : String) : String := String.ofList (camelChars key.toList)

def snake (key : String) : String := String.ofList (snakeChars key.toList)

end JobTrail.Casing
