import JobTrail.Database.Bound
import JobTrail.Proofs.Value.Accepted
import JobTrail.Proofs.Value.Document

/-!
# Values that come back from storage

What a value is bound as and what is made of a cell are two tables, one by the shape of the value and the other
by the type of the column. They belong together: whatever a value is handed to the driver as, the type of that
column leads back to the value, if the driver gives back what it was given. A list is an array exactly if it
holds nothing but texts, and everything else that is nested goes through its document.
-/

namespace JobTrail

variable {v : Value} {r : Record} {items : List Value}

namespace Value

/-! ## Handed over and taken back -/

theorem of_mapM_text? {texts : List String} (h : items.mapM text? = some texts) : items = texts.map text := by
  induction items generalizing texts with
  | nil =>
    cases h
    rfl
  | cons v rest ih =>
    rw [List.mapM_cons] at h
    obtain ⟨s, hs, h⟩ := Option.bind_eq_some_iff.mp h
    obtain ⟨tail, htail, h⟩ := Option.bind_eq_some_iff.mp h
    cases h
    cases v with
    | text t =>
      cases hs
      rw [List.map_cons, ← ih htail]
    | _ => cases hs

/-- The parameter of a value is what the driver writes of what it is handed. -/
theorem bind_eq_written (distinct : v.Distinct) : v.bind = v.bound.written := by
  cases v with
  | number n =>
    cases n with
    | int n => by_cases hfits : fitsInt64 n <;> simp [bind, bound, Number.bind, Number.bound, Bound.written, hfits]
    | real d => rfl
  | sequence items =>
    rw [bind, bound]
    cases items.mapM text? with
    | some texts => rfl
    | none => exact congrArg Parameter.json (print_throughDocument distinct).symm
  | record r => exact congrArg Parameter.json (print_throughDocument distinct).symm
  | _ => rfl

end Value

/-- A whole number stays one if it fits, and a double has to be finite. -/
def Number.Kept : Number → Prop
  | .int n => fitsInt64 n
  | .real d => d.IsFinite

theorem Number.bound_int {n : Int} (h : fitsInt64 n) : (Number.int n).bound = .whole n := if_pos h

namespace Value

/-- What it takes for a value to come back: its records have keys of their own, a number keeps its type, and no
instant stands inside of it. -/
structure Storable (v : Value) : Prop where
  distinct : v.Distinct
  number : ∀ n, v = .number n → n.Kept
  instants : ∀ t, Within (.instant t) v → v = .instant t

theorem Storable.instantFree (h : v.Storable) (hne : ∀ t, v ≠ .instant t) : v.InstantFree :=
  fun t ht => hne t (h.instants t ht)

/-- The two tables undo each other. -/
theorem value_bound (h : v.Storable) : v.bound.value = v := by
  have hdocument : (∀ t, v ≠ .instant t) → v.toDocument.toValue = v :=
    fun hne => throughDocument_of_instantFree h.distinct (h.instantFree hne)
  cases v with
  | number n =>
    have hkept := h.number n rfl
    cases n with
    | int n => exact congrArg Bound.value (Number.bound_int hkept)
    | real d => exact if_pos hkept
  | sequence items =>
    rw [bound]
    cases htexts : items.mapM text? with
    | some texts => exact congrArg sequence (of_mapM_text? htexts).symm
    | none => exact hdocument nofun
  | record r => exact hdocument nofun
  | _ => rfl

end Value

/-- A cell is decoded by what the driver reads from it. -/
theorem Cell.value_of_returned? {cell : Cell} {b : Bound} (h : cell.returned? = some b) :
    cell.value = .ok b.value := by
  cases cell with
  | real d single =>
    cases single with
    | false => cases h; rfl
    | true => cases h
  | texts items =>
    obtain ⟨texts, htexts, rfl⟩ := Option.map_eq_some_iff.mp h
    simp only [value, ofItems, htexts, List.map_id]
    rfl
  | json written =>
    obtain ⟨w, hread, rfl⟩ := Option.map_eq_some_iff.mp h
    have hfits := Json.fits_of_read? hread
    simp only [value, hread]
    exact congrArg Except.ok (Value.throughDocument_of_instantFree hfits.distinct hfits.instantFree).symm
  | absent | bool | whole | text | moment => cases h; rfl
  | numeric | uuid | uuids | day | bytes | unread => cases h

/-! ## Through the bytes -/

/-- The value that the driver reads where it has written one. -/
def Bound.carried? (b : Bound) : Option Bound := b.written.toCell.returned?

/-- What the bytes have room for: whole microseconds, the numbers of JSON, and as many levels as are read. -/
structure Value.FitsBytes (v : Value) : Prop where
  instants : ∀ t, v = .instant t → t.nanos < 1000000000 ∧ t.nanos % 1000 = 0
  numbers : ∀ n, Value.Within (.number n) v → n.WellFormed
  depth : v.depth ≤ Json.depthLimit

theorem Instant.ofMicros_toMicros {t : Instant} (hnanos : t.nanos < 1000000000) (hmicros : t.nanos % 1000 = 0) :
    Instant.ofMicros t.toMicros = t := by
  obtain ⟨seconds, nanos⟩ := t
  obtain ⟨micros, rfl⟩ := Nat.dvd_of_mod_eq_zero hmicros
  have hproduct : (seconds - year2000) * 1000000000 + (1000 * micros : Nat)
      = ((seconds - year2000) * 1000000 + micros) * 1000 := by
    push_cast
    ring
  simp only at hnanos
  have hcount : Instant.toMicros ⟨seconds, 1000 * micros⟩ = (seconds - year2000) * 1000000 + micros := by
    rw [toMicros, hproduct, Int.mul_tdiv_cancel _ (by omega)]
  rw [hcount, ofMicros, Int.fdiv_eq_ediv_of_nonneg _ (by omega), Int.fmod_eq_emod_of_nonneg _ (by omega),
    Instant.mk.injEq]
  omega

theorem Cell.mapM_id_some (items : List String) : (items.map some).mapM id = some items := by
  induction items with
  | nil => rfl
  | cons s rest ih => rw [List.map_cons, List.mapM_cons, ih]; rfl

namespace Value

theorem carried?_document (h : v.Storable) (hne : ∀ t, v ≠ .instant t) (hfits : v.FitsBytes) :
    (Bound.document v.toDocument).carried? = some (.document v.toDocument) := by
  have hreadable : v.Readable := ⟨h.distinct, fun n hn => Number.readsBack (hfits.numbers n hn), hfits.depth⟩
  have hread : Json.read? v.toDocument.toValue.print = some v := by
    have hprint : v.toDocument.toValue.print = v.print := print_throughDocument h.distinct
    rw [hprint, Json.read?_print hreadable, plain_of_instantFree v (h.instantFree hne)]
  simp only [Bound.carried?, Bound.written, Parameter.toCell, Cell.returned?, hread, Option.map_some]

theorem carried?_bound (h : v.Storable) (hfits : v.FitsBytes) : v.bound.carried? = some v.bound := by
  cases v with
  | number n =>
    have hkept := h.number n rfl
    cases n with
    | int n =>
      rw [bound, Number.bound_int hkept]
      rfl
    | real d => rfl
  | instant t =>
    obtain ⟨hnanos, hmicros⟩ := hfits.instants t rfl
    exact congrArg (fun t => some (Bound.instant t)) (Instant.ofMicros_toMicros hnanos hmicros)
  | sequence items =>
    rw [bound]
    cases items.mapM text? with
    | some texts => exact congrArg (Option.map Bound.texts) (Cell.mapM_id_some texts)
    | none => exact carried?_document h nofun hfits
  | record r => exact carried?_document h nofun hfits
  | _ => rfl

end Value
end JobTrail
