import JobTrail.Proofs.Sql.Query
import JobTrail.Text.Blank

/-!
# Reading statements

From the text of a statement to the query that it spells. Words stand between blanks, and parentheses
and commas are words of their own; keywords are written in capitals. A text that spells no query of
this part of SQL has no reading.
-/

namespace JobTrail.Sql

/-! ## Words -/

inductive Keyword where
  | select | from | where | and | order | by | desc | asc | insert | into | values | returning | update
  | set | delete | null | is | false | coalesce | on | conflict | do | nothing | join | as
deriving DecidableEq, Repr

def Keyword.letters : Keyword → List Char
  | select => ['S', 'E', 'L', 'E', 'C', 'T']
  | .from => ['F', 'R', 'O', 'M']
  | .where => ['W', 'H', 'E', 'R', 'E']
  | and => ['A', 'N', 'D']
  | order => ['O', 'R', 'D', 'E', 'R']
  | .by => ['B', 'Y']
  | desc => ['D', 'E', 'S', 'C']
  | asc => ['A', 'S', 'C']
  | insert => ['I', 'N', 'S', 'E', 'R', 'T']
  | into => ['I', 'N', 'T', 'O']
  | values => ['V', 'A', 'L', 'U', 'E', 'S']
  | returning => ['R', 'E', 'T', 'U', 'R', 'N', 'I', 'N', 'G']
  | update => ['U', 'P', 'D', 'A', 'T', 'E']
  | set => ['S', 'E', 'T']
  | delete => ['D', 'E', 'L', 'E', 'T', 'E']
  | null => ['N', 'U', 'L', 'L']
  | is => ['I', 'S']
  | .false => ['F', 'A', 'L', 'S', 'E']
  | coalesce => ['C', 'O', 'A', 'L', 'E', 'S', 'C', 'E']
  | on => ['O', 'N']
  | conflict => ['C', 'O', 'N', 'F', 'L', 'I', 'C', 'T']
  | .do => ['D', 'O']
  | nothing => ['N', 'O', 'T', 'H', 'I', 'N', 'G']
  | join => ['J', 'O', 'I', 'N']
  | as => ['A', 'S']

def Keyword.all : List Keyword :=
  [.select, .from, .where, .and, .order, .by, .desc, .asc, .insert, .into, .values, .returning, .update,
    .set, .delete, .null, .is, .false, .coalesce, .on, .conflict, .do, .nothing, .join, .as]

inductive Token where
  | keyword (k : Keyword)
  | name (s : String)
  /-- A column of a table by the short name of the table. -/
  | member (owner column : String)
  /-- All columns of a table by its short name. -/
  | members (owner : String)
  /-- A parameter, counted from one. -/
  | parameter (number : Nat) (cast : Option String)
  | quoted (s : String)
  | star | equals | differs | opening | closing | comma
deriving DecidableEq, Repr

def Token.ofParameter (cs : List Char) : Token :=
  let cast :=
    match cs.dropWhile Char.isDigit with
    | ':' :: ':' :: type => some (String.ofList type)
    | _ => none
  .parameter (Nat.ofDigitChars 10 (cs.takeWhile Char.isDigit) 0) cast

def Token.ofName (cs : List Char) : Token :=
  match splitFirst '.' cs with
  | some (owner, ['*']) => .members (String.ofList owner)
  | some (owner, column) => .member (String.ofList owner) (String.ofList column)
  | none => .name (String.ofList cs)

def Token.ofWord : List Char → Token
  | ['*'] => .star
  | ['='] => .equals
  | ['!', '='] => .differs
  | '$' :: rest => .ofParameter rest
  | '\x27' :: rest => .quoted (String.ofList rest.dropLast)
  | cs =>
    match Keyword.all.find? (·.letters = cs) with
    | some k => .keyword k
    | none => .ofName cs

def Token.ofMark? : Char → Option Token
  | '(' => some .opening
  | ')' => some .closing
  | ',' => some .comma
  | _ => none

def finishWord (word : List Char) : List Token := if word.isEmpty then [] else [.ofWord word]

/-- The words of a text; `word` holds what is read of the current one. -/
def tokensFrom (word : List Char) : List Char → List Token
  | [] => finishWord word
  | c :: rest =>
    if c = ' ' then finishWord word ++ tokensFrom [] rest
    else
      match Token.ofMark? c with
      | some mark => finishWord word ++ mark :: tokensFrom [] rest
      | none => tokensFrom (word ++ [c]) rest

def tokens (cs : List Char) : List Token := tokensFrom [] cs

/-! ## Parts of queries

Each reads the front of some words and leaves the words behind it. -/

def column? (owner : Option String) : Token → Option String
  | .name c => if owner.isNone then some c else none
  | .member o c => if owner = some o then some c else none
  | _ => none

def operand? : Token → Option Operand
  | .parameter (place + 1) cast => some (.parameter place cast)
  | .quoted s => some (.constant (.text s))
  | .keyword .null => some (.constant .null)
  | .keyword .false => some (.constant (.bool false))
  | _ => none

def names : List Token → Option (List String × List Token)
  | .name c :: .comma :: rest => (names rest).map fun (cs, rest) => (c :: cs, rest)
  | .name c :: rest => some ([c], rest)
  | _ => none

def columns : List Token → Option (Columns × List Token)
  | .star :: rest => some (.all, rest)
  | rest => (names rest).map fun (cs, rest) => (.these cs, rest)

def operands : List Token → Option (List Operand × List Token)
  | t :: .comma :: rest => do
    let o ← operand? t
    let (os, rest) ← operands rest
    some (o :: os, rest)
  | t :: rest => (operand? t).map fun o => ([o], rest)
  | [] => none

/-- The value in `COALESCE($n, column)`. -/
def fallback? (t : Token) (column : String) : Option Operand :=
  match operand? t with
  | some (.parameter place cast) => some (.orColumn place cast column)
  | _ => none

def assignments : List Token → Option (List (String × Operand) × List Token)
  | .name c :: .equals :: .keyword .coalesce :: .opening :: t :: .comma :: .name d :: .closing :: .comma
      :: rest => do
    let o ← fallback? t d
    let (sets, rest) ← assignments rest
    some ((c, o) :: sets, rest)
  | .name c :: .equals :: .keyword .coalesce :: .opening :: t :: .comma :: .name d :: .closing :: rest =>
    (fallback? t d).map fun o => ([(c, o)], rest)
  | .name c :: .equals :: t :: .comma :: rest => do
    let o ← operand? t
    let (sets, rest) ← assignments rest
    some ((c, o) :: sets, rest)
  | .name c :: .equals :: t :: rest => (operand? t).map fun o => ([(c, o)], rest)
  | _ => none

def condition? (owner : Option String) (left sign right : Token) : Option Condition := do
  let column ← column? owner left
  match sign, right with
  | .equals, t => (operand? t).map (.equals column)
  | .differs, t => (operand? t).map (.differs column)
  | .keyword .is, .keyword .null => some (.isNull column)
  | _, _ => none

def conditions (owner : Option String) : List Token → Option (List Condition × List Token)
  | left :: sign :: right :: .keyword .and :: rest => do
    let c ← condition? owner left sign right
    let (cs, rest) ← conditions owner rest
    some (c :: cs, rest)
  | left :: sign :: right :: rest => (condition? owner left sign right).map fun c => ([c], rest)
  | _ => none

def filter (owner : Option String) : List Token → Option (List Condition × List Token)
  | .keyword .where :: rest => conditions owner rest
  | rest => some ([], rest)

def sortKeys (owner : Option String) : List Token → Option (List SortKey)
  | [t] => (column? owner t).map fun c => [⟨c, .false⟩]
  | [t, .keyword .asc] => (column? owner t).map fun c => [⟨c, .false⟩]
  | [t, .keyword .desc] => (column? owner t).map fun c => [⟨c, .true⟩]
  | t :: .comma :: rest => do some (⟨← column? owner t, .false⟩ :: (← sortKeys owner rest))
  | t :: .keyword .asc :: .comma :: rest => do some (⟨← column? owner t, .false⟩ :: (← sortKeys owner rest))
  | t :: .keyword .desc :: .comma :: rest => do some (⟨← column? owner t, .true⟩ :: (← sortKeys owner rest))
  | _ => none

def ordering (owner : Option String) : List Token → Option (List SortKey)
  | [] => some []
  | .keyword .order :: .keyword .by :: rest => sortKeys owner rest
  | _ => none

def answer? : List Token → Option (Option Columns)
  | [] => some none
  | .keyword .returning :: rest =>
    match columns rest with
    | some (cs, []) => some (some cs)
    | _ => none
  | _ => none

def addedColumns (owner : String) : List Token → Option (List (String × String) × List Token)
  | .member o c :: .keyword .as :: .name n :: .comma :: rest =>
    if o = owner then (addedColumns owner rest).map fun (cs, rest) => ((c, n) :: cs, rest) else none
  | .member o c :: .keyword .as :: .name n :: rest => if o = owner then some ([(c, n)], rest) else none
  | _ => none

/-! ## Statements -/

def selectTail (cs : Columns) (table : String) (join : Option Join) (owner : Option String)
    (rest : List Token) : Option Query := do
  let (where', rest) ← filter owner rest
  some (.select cs table join where' (← ordering owner rest))

def joined (left right : String) (rest : List Token) : Option Query := do
  let (added, rest) ← addedColumns right rest
  match rest with
  | .keyword .from :: .name table :: .name l :: .keyword .join :: .name other :: .name r :: .keyword .on
      :: .member l' column :: .equals :: .member r' key :: rest =>
    if l = left ∧ l' = left ∧ r = right ∧ r' = right then
      selectTail .all table (some ⟨other, column, key, added⟩) (some left) rest
    else none
  | _ => none

def selection (rest : List Token) : Option Query :=
  match rest with
  | .members left :: .comma :: .member right column :: rest =>
    joined left right (.member right column :: rest)
  | rest => do
    let (cs, rest) ← columns rest
    match rest with
    | .keyword .from :: .name table :: rest => selectTail cs table none none rest
    | _ => none

def insertion : List Token → Option Query
  | .keyword .into :: .name table :: .opening :: rest => do
    let (cs, rest) ← names rest
    match rest with
    | .closing :: .keyword .values :: .opening :: rest =>
      let (os, rest) ← operands rest
      match rest with
      | [.closing, .keyword .on, .keyword .conflict, .keyword .do, .keyword .nothing] =>
        some (.insert table cs os true none)
      | .closing :: rest => some (.insert table cs os false (← answer? rest))
      | _ => none
    | _ => none
  | _ => none

def statement : List Token → Option Query
  | .keyword .select :: rest => selection rest
  | .keyword .insert :: rest => insertion rest
  | .keyword .update :: .name table :: .keyword .set :: rest => do
    let (sets, rest) ← assignments rest
    let (where', rest) ← filter none rest
    some (.update table sets where' (← answer? rest))
  | .keyword .delete :: .keyword .from :: .name table :: rest => do
    let (where', rest) ← filter none rest
    some (.delete table where' (← answer? rest))
  | _ => none

def read? (text : String) : Option Query := statement (tokens text.toList)

/-! ## The characters of a text -/

/-- A text consists of these characters. A literal is put together from its characters by definition,
so a statement is read off them and not off its encoding. -/
def Spells (text : String) (cs : List Char) : Prop := text.toList = cs

theorem spells_ofList (cs : List Char) : Spells (String.ofList cs) cs := String.toList_ofList

theorem Spells.append {s t : String} {cs ds : List Char} (hs : Spells s cs) (ht : Spells t ds) :
    Spells (s ++ t) (cs ++ ds) := by
  rw [Spells, String.toList_append, hs, ht]

def spellsQuery (P : Query → Bool) (cs : List Char) : Bool := (statement (tokens cs)).any P

theorem Spells.exists_read? {s : String} {cs : List Char} {P : Query → Bool} (h : Spells s cs)
    (hP : spellsQuery P cs = true) : ∃ q, Sql.read? s = some q ∧ P q = true := by
  rw [Sql.read?, h]
  exact (Option.any_eq_true P _).mp hP

theorem Spells.read? {s : String} {cs : List Char} {q : Query} (h : Spells s cs)
    (hq : statement (tokens cs) = some q) : Sql.read? s = some q := by
  rw [Sql.read?, h]
  exact hq

end JobTrail.Sql
