import JobTrail.Settings
import JobTrail.Text.Script

/-! # Environment files

A file of assignments `NAME=value`, one a line, that gives variables a value where the surroundings
do not. A value may be quoted: between single quotes everything stands for itself, between double
quotes and outside quotes a backslash escapes, and a dollar sign in front of a name, which may be in
braces, stands for the value of a variable. An open quote carries the line on, and `#` after a blank
starts a comment.

Reading is in two steps: first the lines of the text are joined where a quote is open, then each
joined line is read. The first line that is no assignment ends the reading; what stands before it
counts.
-/

namespace JobTrail.EnvFile

/-! ## Joining lines -/

inductive Standing where
  | free
  /-- Right after a blank, where a comment may start. -/
  | blank
  | escaped
  | strong
  | strongEscaped
  | weak
  | weakEscaped
deriving DecidableEq, Repr

def Standing.enter : Char → Standing
  | '\\' => escaped
  | '"' => weak
  | '\'' => strong
  | _ => .free

/-- The standing after a character; `none` when the character starts a comment. -/
def Standing.next? : Standing → Char → Option Standing
  | .free, c => some (if isBlank c ∧ c ≠ '\n' ∧ c ≠ '\r' then blank else enter c)
  | blank, c => if c = '#' then none else some (enter c)
  | escaped, _ => some .free
  | strong, c => some (if c = '\\' then strongEscaped else if c = '\'' then .free else strong)
  | strongEscaped, _ => some strong
  | weak, c => some (if c = '\\' then weakEscaped else if c = '"' then .free else weak)
  | weakEscaped, _ => some weak

/-- The part of a line in front of its comment, and the standing at the end; `none` for the
standing when a comment ends the line. -/
def scanLine : Standing → List Char → List Char × Option Standing
  | s, [] => ([], some s)
  | s, c :: rest =>
    match s.next? c with
    | none => ([], none)
    | some s' => let (kept, last) := scanLine s' rest; (c :: kept, last)

def physicalLines (cs : List Char) : List (List Char) :=
  let parts := cs.splitOn '\n'
  parts.dropLast.map (· ++ ['\n']) ++ (parts.getLast?.toList.filter (!·.isEmpty))

def dropLineEnd (cs : List Char) : List Char :=
  match cs.reverse with
  | '\n' :: '\r' :: rest => rest.reverse
  | '\n' :: rest => rest.reverse
  | _ => cs

def isCommentLine (cs : List Char) : Bool := (cs.dropWhile isBlank).head? == some '#'

/-- Joins lines while a quote is open. `held` is the joined line so far. The last line is `none`
when the text ends in the middle of it. -/
def joinLines (held : List Char) (s : Standing) : List (List Char) → List (Option (List Char))
  | [] => if s = .free then [] else [none]
  | line :: rest =>
    if isCommentLine (held ++ line) then joinLines [] .free rest
    else
      match scanLine s line with
      | (kept, none) => some (held ++ kept) :: joinLines [] .free rest
      | (_, some .free) => some (dropLineEnd (held ++ line)) :: joinLines [] .free rest
      | (_, some s') => joinLines (held ++ line) s' rest

def byteOrderMark : Char := '\ufeff'

def logicalLines (text : String) : List (Option (List Char)) :=
  let cs := text.toList
  joinLines [] .free (physicalLines (if cs.head? = some byteOrderMark then cs.tail else cs))

/-! ## Values -/

inductive Piece where
  | char (c : Char)
  | reference (name : String)
deriving DecidableEq, Repr

/-- What reading a value is in the middle of. The flag of a mode tells whether double quotes are
open around it, and names are held back to front. -/
inductive Mode where
  | plain
  | strong
  | weak
  | escaped (quoted : Bool)
  | named (quoted : Bool) (name : List Char)
  | braced (quoted : Bool) (name : List Char)
  /-- After the blank that ends an unquoted value. -/
  | ended
deriving DecidableEq, Repr

def Mode.back (quoted : Bool) : Mode := if quoted then weak else plain

def endReference (name : List Char) : Piece := .reference (String.ofList name.reverse)

def unescape? : Char → Option Char
  | 'n' => some '\n'
  | c => if c ∈ ['\\', '\'', '"', '$', ' '] then some c else none

/-- Reads one character: the pieces it completes and the mode after it. A name ends at the first
character that is no letter or digit, and that character stands for itself, a quote too. -/
def step? : Mode → Char → Option (List Piece × Mode)
  | .plain, c =>
    match c with
    | '$' => some ([], .named false [])
    | '\'' => some ([], .strong)
    | '"' => some ([], .weak)
    | '\\' => some ([], .escaped false)
    | ' ' | '\t' => some ([], .ended)
    | c => some ([.char c], .plain)
  | .strong, c => if c = '\'' then some ([], .plain) else some ([.char c], .strong)
  | .weak, c =>
    match c with
    | '$' => some ([], .named true [])
    | '"' => some ([], .plain)
    | '\\' => some ([], .escaped true)
    | c => some ([.char c], .weak)
  | .escaped quoted, c => (unescape? c).map fun c => ([.char c], .back quoted)
  | .named quoted name, c =>
    if isScriptChar c then some ([], .named quoted (c :: name))
    else if c = '\x7b' ∧ name = [] then some ([], .braced quoted [])
    else if c = '$' then some ([endReference name], .named quoted [])
    else some ([endReference name, .char c], .back quoted)
  | .braced quoted name, c =>
    if c = '\x7d' then some ([endReference name], .back quoted)
    else some ([], .braced quoted (c :: name))
  | .ended, c => if c = ' ' ∨ c = '\t' then some ([], .ended) else none

def finish? : Mode → Option (List Piece)
  | .plain | .ended | .escaped false => some []
  | .named false name => some [endReference name]
  | _ => none

def readValue? (mode : Mode) : List Char → Option (List Piece)
  | [] => finish? mode
  | c :: rest => do
    if mode = .ended ∧ c = '#' then some []
    else
      let (found, mode) ← step? mode c
      let later ← readValue? mode rest
      some (found ++ later)

/-! ## Assignments -/

structure Assignment where
  name : String
  value : List Piece
deriving DecidableEq, Repr

def isNameStart (c : Char) : Bool := c.isAlpha || c == '_'

def isNameChar (c : Char) : Bool := c.isAlphanum || c == '_' || c == '.'

def skipBlanks (cs : List Char) : List Char := cs.dropWhile isBlank

def readName? (cs : List Char) : Option (List Char × List Char) :=
  match cs with
  | c :: _ =>
    if isNameStart c then some (cs.takeWhile isNameChar, skipBlanks (cs.dropWhile isNameChar))
    else none
  | [] => none

/-- The name that is assigned to and the text after the equals sign. The word `export` may stand in
front of the name, or be the name itself. -/
def readTarget? (cs : List Char) : Option (List Char × List Char) := do
  match ← readName? cs with
  | (name, '=' :: rest) => some (name, rest)
  | (name, rest) =>
    if name = "export".toList then
      match ← readName? rest with
      | (name, '=' :: rest) => some (name, rest)
      | _ => none
    else none

def isEmptyText (cs : List Char) : Bool := cs.isEmpty || cs.head? == some '#'

/-- The assignment of a joined line, which may have none; the outer `none` is for a line that is
none of both. -/
def readLine? (line : List Char) : Option (Option Assignment) := do
  let cs := trimChars line
  if isEmptyText cs then some none
  else
    let (name, rest) ← readTarget? cs
    let rest := skipBlanks rest
    let value ← if isEmptyText rest then some [] else readValue? .plain rest
    some (some ⟨String.ofList name, value⟩)

/-- The assignments of lines, up to the first line that cannot be read. -/
def assignments : List (Option (List Char)) → List Assignment
  | [] => []
  | line :: rest =>
    match line.bind readLine? with
    | none => []
    | some found => found.toList ++ assignments rest

def mentioned (found : List Assignment) : List String :=
  found.flatMap fun a => a.name :: a.value.filterMap fun
    | .char _ => none
    | .reference name => some name

def textOf (vars : Settings.Variables) (value : List Piece) : String :=
  String.join (value.map fun
    | .char c => c.toString
    | .reference name => (vars name).getD "")

/-- A variable that is set already keeps its value. -/
def assign (vars : Settings.Variables) (a : Assignment) : Settings.Variables := fun name =>
  (vars name).or (if name = a.name then some (textOf vars a.value) else none)

def load (vars : Settings.Variables) (text : String) : Settings.Variables :=
  (assignments (logicalLines text)).foldl assign vars

end JobTrail.EnvFile
