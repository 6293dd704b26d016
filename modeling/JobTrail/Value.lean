import JobTrail.Decimal.Binary64
import JobTrail.Instant
import JobTrail.Text.Integer

/-! # Values and records

The data that moves between the wire and storage: scalars, instants, ordered records and sequences.
A record is a list of keys with their values. Every operation keeps the keys distinct: writing a key
that is present changes its value in place, and a new key goes to the end.
-/

namespace JobTrail

inductive Number where
  | int (n : Int)
  | real (d : Binary64)
deriving DecidableEq, Inhabited

/-- The numbers a JSON text can hold: 64-bit whole numbers of either kind, and finite doubles. -/
def Number.WellFormed : Number → Prop
  | .int n => fitsInt64 n ∨ fitsNat64 n
  | .real d => d.IsFinite

inductive Value where
  | null
  | bool (b : Bool)
  | number (n : Number)
  | text (s : String)
  | instant (t : Instant)
  | record (entries : List (String × Value))
  | sequence (items : List Value)
deriving Inhabited

abbrev Record := List (String × Value)

namespace Record

def keys (r : Record) : List String := r.map (·.1)

def get? (r : Record) (key : String) : Option Value := (r.find? (·.1 = key)).map (·.2)

def contains (r : Record) (key : String) : Bool := r.any (·.1 = key)

def insert : Record → String → Value → Record
  | [], key, v => [(key, v)]
  | (k, old) :: rest, key, v =>
    if k = key then (k, v) :: rest else (k, old) :: insert rest key v

def erase (r : Record) (key : String) : Record := r.eraseP (·.1 = key)

/-- Writes entries one after the other: a repeated key keeps its first place and its last value. -/
def ofList (entries : List (String × Value)) : Record :=
  entries.foldl (fun r (k, v) => r.insert k v) []

end Record

namespace Value

def ofInt (n : Int) : Value := .number (.int n)

def ofOption (v : Option Value) : Value := v.getD .null

def ofTexts (items : List String) : Value := .sequence (items.map .text)

def isNull : Value → Bool
  | null => true
  | _ => false

def text? : Value → Option String
  | text s => some s
  | _ => none

def bool? : Value → Option Bool
  | bool b => some b
  | _ => none

/-- A boolean, or its spelling as a form sends it. -/
def flag? : Value → Option Bool
  | bool b => some b
  | text s => if s = "true" then some true else if s = "false" then some false else none
  | _ => none

/-- A whole number of 64 bits with a sign; a double is never one. -/
def int? : Value → Option Int
  | number (.int n) => if fitsInt64 n then some n else none
  | _ => none

def record? : Value → Option Record
  | record r => some r
  | _ => none

def sequence? : Value → Option (List Value)
  | sequence items => some items
  | _ => none

def get? (v : Value) (key : String) : Option Value := v.record?.bind (Record.get? · key)

mutual

def same : Value → Value → Bool
  | null, null => true
  | bool a, bool b => a == b
  | number a, number b => a == b
  | text a, text b => a == b
  | instant a, instant b => a == b
  | record a, record b => sameEntries a b
  | sequence a, sequence b => sameItems a b
  | _, _ => false

def sameEntries : List (String × Value) → List (String × Value) → Bool
  | [], [] => true
  | (k, v) :: r, (l, w) :: s => k == l && same v w && sameEntries r s
  | _, _ => false

def sameItems : List Value → List Value → Bool
  | [], [] => true
  | v :: r, w :: s => same v w && sameItems r s
  | _, _ => false

end

mutual

theorem same_self (v : Value) : same v v = true := by
  cases v with
  | record r => simp [same, sameEntries_self r]
  | sequence items => simp [same, sameItems_self items]
  | _ => simp [same]

theorem sameEntries_self (r : List (String × Value)) : sameEntries r r = true := by
  match r with
  | [] => rfl
  | (k, v) :: rest => simp [sameEntries, same_self v, sameEntries_self rest]

theorem sameItems_self (items : List Value) : sameItems items items = true := by
  match items with
  | [] => rfl
  | v :: rest => simp [sameItems, same_self v, sameItems_self rest]

end

mutual

theorem eq_of_same {v w : Value} (h : same v w = true) : v = w := by
  match v, w, h with
  | null, null, _ => rfl
  | bool a, bool b, h => simpa [same] using h
  | number a, number b, h => simpa [same] using h
  | text a, text b, h => simpa [same] using h
  | instant a, instant b, h => simpa [same] using h
  | record a, record b, h => exact congrArg record (eq_of_sameEntries (by simpa [same] using h))
  | sequence a, sequence b, h => exact congrArg sequence (eq_of_sameItems (by simpa [same] using h))

theorem eq_of_sameEntries {r s : List (String × Value)} (h : sameEntries r s = true) : r = s := by
  match r, s, h with
  | [], [], _ => rfl
  | (k, v) :: r, (l, w) :: s, h =>
    simp only [sameEntries, Bool.and_eq_true, beq_iff_eq] at h
    rw [h.1.1, eq_of_same h.1.2, eq_of_sameEntries h.2]

theorem eq_of_sameItems {r s : List Value} (h : sameItems r s = true) : r = s := by
  match r, s, h with
  | [], [], _ => rfl
  | v :: r, w :: s, h =>
    simp only [sameItems, Bool.and_eq_true] at h
    rw [eq_of_same h.1, eq_of_sameItems h.2]

end

instance : DecidableEq Value := fun v w =>
  if h : same v w = true then isTrue (eq_of_same h)
  else isFalse fun e => h (e ▸ same_self v)

end Value
end JobTrail
