import JobTrail.Http.Message
import Mathlib

/-!
# Reading the header of a download

How a reader takes the value of such a header apart (RFC 9110): a type and parameters behind semicolons, each with a
token or a text in quotes for its value. Between quotes a backslash takes the character behind it as it is, so a
text without quotes of its own closes where it should exactly if no backslash is left open at its end.
-/

namespace JobTrail

/-! ## Characters -/

/-- What names and values without quotes are made of. -/
def isTokenChar (c : Char) : Bool :=
  c.isAlphanum || ['!', '#', '$', '%', '&', '\x27', '*', '+', '-', '.', '^', '_', '\x60', '|', '~'].contains c

/-- What a backslash can stand before: blanks, visible characters, and everything beyond ASCII. -/
def isQuotable (c : Char) : Bool := c == '\t' || 0x20 ≤ c.toNat && c.toNat ≤ 0x7E || 0x80 ≤ c.toNat

/-- What stands for itself between quotes. -/
def isQuotedText (c : Char) : Bool := isQuotable c && c ≠ '"' && c ≠ '\\'

namespace Disposition

/-- A parameter's value: a token, or what is between quotes once the backslashes are taken away. -/
inductive Content where
  | token (chars : List Char)
  | quoted (chars : List Char)
deriving DecidableEq

end Disposition

/-- The type of a header's value and its parameters, in their order. -/
structure Disposition where
  kind : List Char
  parameters : List (List Char × Disposition.Content)
deriving DecidableEq

namespace Disposition

variable {d : Disposition} {name content : List Char} {cs : List Char} {c : Char}

def add (d : Disposition) (name : List Char) (content : Content) : Disposition :=
  { d with parameters := d.parameters ++ [(name, content)] }

/-! ## The reader -/

/-- Where in a value the reader is, with what it has read. -/
inductive Reading where
  | kind (read : List Char)
  /-- Behind the type or a value, where a semicolon may come. -/
  | behind (d : Disposition)
  /-- Behind a semicolon. -/
  | gap (d : Disposition)
  | name (d : Disposition) (read : List Char)
  /-- Behind the sign between a name and its value. -/
  | value (d : Disposition) (name : List Char)
  | token (d : Disposition) (name read : List Char)
  | quoted (d : Disposition) (name read : List Char)
  /-- Behind a backslash. -/
  | escape (d : Disposition) (name read : List Char)
deriving DecidableEq

/-- What comes behind a type or a value: blanks, and a semicolon. -/
def leave (d : Disposition) (c : Char) : Option Reading :=
  if c = ';' then some (.gap d) else if c = ' ' ∨ c = '\t' then some (.behind d) else none

def step : Reading → Char → Option Reading
  | .kind read, c =>
    if isTokenChar c then some (.kind (read ++ [c])) else if read = [] then none else leave ⟨read, []⟩ c
  | .behind d, c => leave d c
  | .gap d, c =>
    if isTokenChar c then some (.name d [c])
    else if c = ';' ∨ c = ' ' ∨ c = '\t' then some (.gap d) else none
  | .name d read, c =>
    if isTokenChar c then some (.name d (read ++ [c])) else if c = '=' then some (.value d read) else none
  | .value d name, c =>
    if c = '"' then some (.quoted d name []) else if isTokenChar c then some (.token d name [c]) else none
  | .token d name read, c =>
    if isTokenChar c then some (.token d name (read ++ [c])) else leave (d.add name (.token read)) c
  | .quoted d name read, c =>
    if c = '"' then some (.behind (d.add name (.quoted read)))
    else if c = '\\' then some (.escape d name read)
    else if isQuotedText c then some (.quoted d name (read ++ [c])) else none
  | .escape d name read, c => if isQuotable c then some (.quoted d name (read ++ [c])) else none

/-- What has been read when the value ends. -/
def Reading.finish : Reading → Option Disposition
  | .kind read => if read = [] then none else some ⟨read, []⟩
  | .behind d | .gap d => some d
  | .token d name read => some (d.add name (.token read))
  | .name .. | .value .. | .quoted .. | .escape .. => none

def run (r : Reading) (cs : List Char) : Option Reading := cs.foldlM step r

def read? (value : String) : Option Disposition := (run (.kind []) value.toList).bind Reading.finish

theorem run_append (r : Reading) (cs ds : List Char) : run r (cs ++ ds) = (run r cs).bind (run · ds) :=
  List.foldlM_append

/-! ## Between quotes -/

/-- How many backslashes a text ends in. -/
def trailingBackslashes (cs : List Char) : Nat := (cs.reverse.takeWhile (· = '\\')).length

theorem trailingBackslashes_concat (cs : List Char) (c : Char) :
    trailingBackslashes (cs ++ [c]) = if c = '\\' then trailingBackslashes cs + 1 else 0 := by
  rw [trailingBackslashes, List.reverse_append, List.reverse_singleton, List.singleton_append, List.takeWhile_cons]
  by_cases hc : c = '\\' <;> simp [hc, trailingBackslashes]

/-- The state inside of the quotes: behind a backslash that has not been used up, or not. -/
def inside (d : Disposition) (name content : List Char) (opened : Bool) : Reading :=
  if opened then .escape d name content else .quoted d name content

/-- A character that is no quote is read on, and only a backslash that is not used up opens. -/
theorem step_inside (hc : isQuotable c) (hquote : c ≠ '"') (opened : Bool) :
    ∃ content', step (inside d name content opened) c = some (inside d name content' (c = '\\' && !opened)) := by
  cases opened with
  | false =>
    by_cases hslash : c = '\\'
    · exact ⟨content, by simp [inside, step, hslash]⟩
    · exact ⟨content ++ [c], by simp [inside, step, hslash, hquote, isQuotedText, hc]⟩
  | true => exact ⟨content ++ [c], by simp [inside, step, hc]⟩

/-- Inside of the quotes the reader is behind a backslash exactly after an odd number of them. -/
theorem run_inside (h : ∀ c ∈ cs, isQuotable c ∧ c ≠ '"') :
    ∃ content, run (.quoted d name []) cs = some (inside d name content (trailingBackslashes cs % 2 = 1)) := by
  induction cs using List.reverseRecOn with
  | nil => exact ⟨[], rfl⟩
  | append_singleton cs c ih =>
    obtain ⟨hcs, hlast⟩ := List.forall_mem_append.mp h
    obtain ⟨hc, hquote⟩ := hlast c List.mem_cons_self
    obtain ⟨content, hrun⟩ := ih hcs
    obtain ⟨content', hstep⟩ := step_inside hc hquote (trailingBackslashes cs % 2 = 1)
    have hopened : (decide (c = '\\') && !decide (trailingBackslashes cs % 2 = 1))
        = decide (trailingBackslashes (cs ++ [c]) % 2 = 1) := by
      rw [trailingBackslashes_concat, ← decide_not, ← Bool.decide_and, decide_eq_decide]
      by_cases hslash : c = '\\'
      · rw [if_pos hslash, and_iff_right hslash]
        omega
      · rw [if_neg hslash]
        exact iff_of_false (fun h => hslash h.1) (by decide)
    refine ⟨content', ?_⟩
    rw [run_append, hrun, Option.bind_some, run, List.foldlM_cons, hstep, hopened]
    rfl

end Disposition
end JobTrail
