import JobTrail.Value.Printer
import Mathlib

/-!
# Layouts of JSON text

The compact and the spread text of a value differ in their blanks only. A layout says where blanks stand: in
front of the entries of a bracket and of the bracket that closes them, by the depth of nesting, and behind the
colon of an entry. Both printers are the text of a value in a layout.
-/

namespace JobTrail

structure Layout where
  indent : Nat → List Char
  gap : List Char

namespace Layout

def compact : Layout := ⟨fun _ => [], []⟩

def spread : Layout := ⟨fun depth => '\n' :: List.replicate (2 * depth) ' ', [' ']⟩

/-- Nothing but what JSON takes for a blank. -/
def Blank (cs : List Char) : Prop := ∀ c ∈ cs, c = ' ' ∨ c = '\n'

structure Proper (l : Layout) : Prop where
  indent : ∀ depth, Blank (l.indent depth)
  gap : Blank l.gap

theorem blank_nil : Blank [] := by simp [Blank]

theorem proper_compact : compact.Proper := ⟨fun _ => blank_nil, blank_nil⟩

theorem proper_spread : spread.Proper := by
  constructor
  · intro depth c hc
    rcases List.mem_cons.mp hc with rfl | hc
    · exact .inr rfl
    · exact .inl (List.eq_of_mem_replicate hc)
  · simp [Blank, spread]

variable (l : Layout)

/-- Texts between brackets, with commas between them. -/
def enclose (opening closing : Char) (depth : Nat) : List (List Char) → List Char
  | [] => [opening, closing]
  | first :: rest =>
    opening :: (l.indent (depth + 1) ++ first ++ rest.flatMap (fun t => ',' :: (l.indent (depth + 1) ++ t))
      ++ l.indent depth ++ [closing])

mutual

/-- The text of a value at a depth of nesting. -/
def text (depth : Nat) : Value → List Char
  | .record entries => l.enclose '\x7b' '\x7d' depth (entryTexts (depth + 1) entries)
  | .sequence items => l.enclose '[' ']' depth (itemTexts (depth + 1) items)
  | .null => Value.null.print.toList
  | .bool b => (Value.bool b).print.toList
  | .number n => (Value.number n).print.toList
  | .text s => (Value.text s).print.toList
  | .instant t => (Value.instant t).print.toList

def entryTexts (depth : Nat) : List (String × Value) → List (List Char)
  | [] => []
  | (k, v) :: rest => ((quoteJson k).toList ++ ':' :: (l.gap ++ text depth v)) :: entryTexts depth rest

def itemTexts (depth : Nat) : List Value → List (List Char)
  | [] => []
  | v :: rest => text depth v :: itemTexts depth rest

end

/-! ## The printers -/

theorem intercalate_cons (separator first : List Char) (rest : List (List Char)) :
    separator.intercalate (first :: rest) = first ++ rest.flatMap (separator ++ ·) := by
  induction rest generalizing first with
  | nil => simp
  | cons second rest ih =>
    rw [List.intercalate_cons_cons, ih, List.flatMap_cons]
    simp

theorem toList_bracketed (opening closing : Char) (depth : Nat) (texts : List String) :
    (String.singleton opening ++ ",".intercalate texts ++ String.singleton closing).toList
      = compact.enclose opening closing depth (texts.map String.toList) := by
  cases texts with
  | nil => simp [enclose]
  | cons first rest =>
    simp [enclose, compact, String.toList_intercalate, intercalate_cons]

theorem toList_spreadLines (opening closing : Char) (depth : Nat) (lines : List String) :
    (Value.spreadLines (String.singleton opening) (String.singleton closing) depth lines).toList
      = spread.enclose opening closing depth (lines.map String.toList) := by
  cases lines with
  | nil => simp [Value.spreadLines, enclose]
  | cons first rest =>
    simp [Value.spreadLines, enclose, spread, String.toList_intercalate, intercalate_cons]

mutual

theorem toList_print (depth : Nat) (v : Value) : v.print.toList = compact.text depth v := by
  match v with
  | .record entries =>
    rw [text, ← toList_printEntries (depth + 1) entries]
    exact toList_bracketed '\x7b' '\x7d' depth (Value.printEntries entries)
  | .sequence items =>
    rw [text, ← toList_printItems (depth + 1) items]
    exact toList_bracketed '[' ']' depth (Value.printItems items)
  | .null | .bool _ | .number _ | .text _ | .instant _ => rw [text]

theorem toList_printEntries (depth : Nat) (entries : List (String × Value)) :
    (Value.printEntries entries).map String.toList = compact.entryTexts depth entries := by
  match entries with
  | [] => rfl
  | (k, v) :: rest =>
    have hgap : compact.gap = [] := rfl
    simp [Value.printEntries, entryTexts, hgap, toList_print depth v, toList_printEntries depth rest]

theorem toList_printItems (depth : Nat) (items : List Value) :
    (Value.printItems items).map String.toList = compact.itemTexts depth items := by
  match items with
  | [] => rfl
  | v :: rest => simp [Value.printItems, itemTexts, toList_print depth v, toList_printItems depth rest]

end

mutual

theorem toList_printSpread (depth : Nat) (v : Value) : (v.printSpread depth).toList = spread.text depth v := by
  match v with
  | .record entries =>
    rw [text, ← toList_spreadEntries (depth + 1) entries]
    exact toList_spreadLines '\x7b' '\x7d' depth (Value.spreadEntries (depth + 1) entries)
  | .sequence items =>
    rw [text, ← toList_spreadItems (depth + 1) items]
    exact toList_spreadLines '[' ']' depth (Value.spreadItems (depth + 1) items)
  | .null | .bool _ | .number _ | .text _ | .instant _ => rw [text, Value.printSpread, Value.print]

theorem toList_spreadEntries (depth : Nat) (entries : List (String × Value)) :
    (Value.spreadEntries depth entries).map String.toList = spread.entryTexts depth entries := by
  match entries with
  | [] => rfl
  | (k, v) :: rest =>
    have hgap : spread.gap = [' '] := rfl
    simp [Value.spreadEntries, entryTexts, hgap, toList_printSpread depth v, toList_spreadEntries depth rest]

theorem toList_spreadItems (depth : Nat) (items : List Value) :
    (Value.spreadItems depth items).map String.toList = spread.itemTexts depth items := by
  match items with
  | [] => rfl
  | v :: rest => simp [Value.spreadItems, itemTexts, toList_printSpread depth v, toList_spreadItems depth rest]

end

/-! ## Lists of texts -/

def entryText (depth : Nat) (e : String × Value) : List Char :=
  (quoteJson e.1).toList ++ ':' :: (l.gap ++ l.text depth e.2)

theorem entryTexts_eq_map (depth : Nat) (entries : List (String × Value)) :
    l.entryTexts depth entries = entries.map (l.entryText depth) := by
  induction entries with
  | nil => rfl
  | cons e rest ih => rw [entryTexts, ih, List.map_cons, entryText]

theorem itemTexts_eq_map (depth : Nat) (items : List Value) :
    l.itemTexts depth items = items.map (l.text depth) := by
  induction items with
  | nil => rfl
  | cons v rest ih => rw [itemTexts, ih, List.map_cons]

end Layout
end JobTrail
