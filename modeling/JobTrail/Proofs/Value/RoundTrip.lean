import JobTrail.Proofs.Text.Casing
import JobTrail.Proofs.Value.Within

/-!
# Transcoding there and back

Changing the spelling of every key and changing it back gives a value again exactly when no instant
stands in it and every key at every depth keeps its spelling. The order of entries plays no part in
this: a round trip that gives the same entries in any order gives them in the same order. The reason is
that keys which only change places would have to be images of images, and those are stable.
-/

namespace JobTrail

/-! ## Likeness -/

/-- Equal as numbers; zero of either sign is one number. -/
def Number.alike : Number → Number → Bool
  | int a, int b => a == b
  | real a, real b => a == b || (a.magnitudeBits == 0 && b.magnitudeBits == 0)
  | _, _ => false

namespace Value

mutual

/-- Equal up to the order of the entries of records. -/
def alike : Value → Value → Bool
  | null, null => true
  | bool a, bool b => a == b
  | number a, number b => a.alike b
  | text a, text b => a == b
  | instant a, instant b => a == b
  | record a, record b => a.length == b.length && alikeEntries a b
  | sequence a, sequence b => alikeItems a b
  | _, _ => false

def alikeEntries : List (String × Value) → Record → Bool
  | [], _ => true
  | (k, v) :: rest, r => (match r.get? k with | some w => alike v w | none => false) && alikeEntries rest r

def alikeItems : List Value → List Value → Bool
  | [], [] => true
  | v :: a, w :: b => alike v w && alikeItems a b
  | _, _ => false

end

variable {v w : Value} {r s : Record} {items others : List Value}

theorem alikeEntries_iff :
    alikeEntries r s = true ↔ ∀ e ∈ r, ∃ w, s.get? e.1 = some w ∧ alike e.2 w = true := by
  induction r with
  | nil => simp [alikeEntries]
  | cons e rest ih =>
    obtain ⟨k, v⟩ := e
    rw [alikeEntries, Bool.and_eq_true, ih, List.forall_mem_cons]
    refine and_congr_left fun _ => ?_
    cases s.get? k <;> simp

theorem alike_record_iff :
    alike (record r) (record s) = true ↔
      r.length = s.length ∧ ∀ e ∈ r, ∃ w, s.get? e.1 = some w ∧ alike e.2 w = true := by
  rw [alike, Bool.and_eq_true, beq_iff_eq, alikeEntries_iff]

theorem alike_map_sequence_iff (f : Value → Value) :
    alike (sequence (items.map f)) (sequence items) = true ↔ ∀ v ∈ items, alike (f v) v = true := by
  rw [alike]
  induction items with
  | nil => simp [alikeItems]
  | cons v rest ih => simp [alikeItems, ih]

/-- A value whose keys are distinct is like itself. -/
theorem alike_self (v : Value) : v.Distinct → alike v v = true := by
  induction v using nestedInduction with
  | null => exact fun _ => rfl
  | bool b => simp [alike]
  | number n => cases n <;> simp [alike, Number.alike]
  | text s => simp [alike]
  | instant t => simp [alike]
  | record r ih =>
    intro h
    obtain ⟨hkeys, hentries⟩ := distinct_record_iff.mp h
    refine alike_record_iff.mpr ⟨rfl, fun e he => ⟨e.2, ?_, ih e he (hentries e he)⟩⟩
    exact Record.get?_eq_some_of_mem hkeys he
  | sequence items ih =>
    intro h
    have hitems := distinct_sequence_iff.mp h
    have halike : alike (sequence (items.map id)) (sequence items) = true :=
      (alike_map_sequence_iff id).mpr fun v hv => ih v hv (hitems v hv)
    simpa using halike

end Value

/-! ## There and back -/

namespace Spelling

def other : Spelling → Spelling
  | camel => snake
  | snake => camel

def Stable : Spelling → String → Prop
  | camel => Casing.CamelStable
  | snake => Casing.SnakeStable

theorem rename_back (s : Spelling) {key : String} (h : s.Stable key) :
    s.rename (s.other.rename key) = key := by
  cases s with
  | camel => exact Casing.camel_snake key h
  | snake => exact Casing.snake_camel key h

theorem stable_twice (s : Spelling) (key : String) :
    s.Stable (s.rename (s.other.rename (s.rename (s.other.rename key)))) := by
  cases s with
  | camel => exact Casing.camelStable_twice key
  | snake => exact Casing.snakeStable_snake_camel _

end Spelling

namespace Value

def thereAndBack (s : Spelling) (v : Value) : Value := (v.transcode s.other).transcode s

variable {s : Spelling} {r : Record}

theorem mem_keys_thereAndBack {result : Record} (h : (record r).thereAndBack s = record result)
    (key : String) :
    key ∈ result.keys ↔ ∃ k ∈ r.keys, s.rename (s.other.rename k) = key := by
  rw [thereAndBack, transcode_record, transcode_record, record.injEq] at h
  subst h
  rw [Record.mem_keys_ofList, List.map_map]
  have hinner := Record.mem_keys_ofList (r.map fun e => (s.other.rename e.1, e.2.transcode s.other))
  simp only [List.map_map] at hinner
  simp only [List.mem_map, Function.comp_apply]
  constructor
  · rintro ⟨e, he, rfl⟩
    obtain ⟨d, hd, heq⟩ := List.mem_map.mp ((hinner e.1).mp (Record.mem_keys_of_mem he))
    exact ⟨d.1, Record.mem_keys_of_mem hd, by rw [← heq]; rfl⟩
  · rintro ⟨k, hk, rfl⟩
    obtain ⟨v, hv⟩ := Record.mem_keys_iff.mp hk
    obtain ⟨w, hw⟩ := Record.mem_keys_iff.mp ((hinner (s.other.rename k)).mpr (List.mem_map.mpr ⟨_, hv, rfl⟩))
    exact ⟨_, hw, rfl⟩

theorem thereAndBack_record (distinct : r.keys.Nodup) (stable : ∀ key ∈ r.keys, s.Stable key) :
    (record r).thereAndBack s = record (r.map fun e => (e.1, e.2.thereAndBack s)) := by
  have hback : ∀ e ∈ r, s.rename (s.other.rename e.1) = e.1 := fun e he =>
    s.rename_back (stable e.1 (Record.mem_keys_of_mem he))
  have hinjective : (r.map fun e => s.other.rename e.1).Nodup := by
    refine List.Nodup.of_map s.rename ?_
    rw [List.map_map]
    exact (List.map_congr_left hback).symm ▸ distinct
  have hthere : Record.ofList (r.map fun e => (s.other.rename e.1, e.2.transcode s.other))
      = r.map fun e => (s.other.rename e.1, e.2.transcode s.other) :=
    Record.ofList_of_nodup (by rw [List.map_map]; exact hinjective)
  rw [thereAndBack, transcode_record, hthere, transcode_record, List.map_map]
  have hentries : r.map (fun e => (s.rename (s.other.rename e.1), (e.2.transcode s.other).transcode s))
      = r.map fun e => (e.1, e.2.thereAndBack s) :=
    List.map_congr_left fun e he => by rw [hback e he]; rfl
  rw [record.injEq]
  refine Eq.trans (congrArg Record.ofList hentries) (Record.ofList_of_nodup ?_)
  rw [List.map_map]
  exact distinct

/-- If a round trip gives the keys of a record again, in whatever order, then they are all stable: each
is the image of an image. -/
theorem stable_of_alike {result : Record}
    (hresult : (record r).thereAndBack s = record result)
    (alike : Value.alike (record result) (record r) = true) : ∀ key ∈ r.keys, s.Stable key := by
  obtain ⟨hlength, hentries⟩ := alike_record_iff.mp alike
  have hnodup : result.keys.Nodup := by
    rw [thereAndBack, transcode_record, transcode_record, record.injEq] at hresult
    exact hresult ▸ Record.keys_ofList_nodup _
  have hsubset : result.keys ⊆ r.keys := by
    intro key hkey
    obtain ⟨v, hv⟩ := Record.mem_keys_iff.mp hkey
    obtain ⟨w, hw, -⟩ := hentries _ hv
    exact Record.mem_keys_of_mem (Record.mem_of_get?_eq_some hw)
  have hperm : result.keys.Perm r.keys :=
    (List.subperm_of_subset hnodup hsubset).perm_of_length_le (by simp [Record.keys, hlength])
  have himage : ∀ key ∈ r.keys, ∃ k ∈ r.keys, s.rename (s.other.rename k) = key := fun key hkey =>
    (mem_keys_thereAndBack hresult key).mp (hperm.mem_iff.mpr hkey)
  intro key hkey
  obtain ⟨k, hk, rfl⟩ := himage key hkey
  obtain ⟨l, -, rfl⟩ := himage k hk
  exact s.stable_twice l

theorem thereAndBack_of_stable (v : Value) :
    v.Distinct → v.InstantFree → v.AllKeys s.Stable → v.thereAndBack s = v := by
  induction v using nestedInduction with
  | instant t => exact fun _ hfree _ => absurd (.here _) (hfree t)
  | record r ih =>
    intro distinct hfree hkeys
    obtain ⟨hnodup, hdistinct⟩ := distinct_record_iff.mp distinct
    obtain ⟨hstable, hentries⟩ := allKeys_record_iff.mp hkeys
    have hvalues : ∀ e ∈ r, e.2.thereAndBack s = e.2 := fun e he =>
      ih e he (hdistinct e he) (instantFree_record_iff.mp hfree e he) (hentries e he)
    rw [thereAndBack_record hnodup hstable, record.injEq]
    exact (List.map_congr_left fun e he => congrArg (Prod.mk e.1) (hvalues e he)).trans (List.map_id r)
  | sequence items ih =>
    intro distinct hfree hkeys
    have hvalues : ∀ v ∈ items, v.thereAndBack s = v := fun v hv =>
      ih v hv (distinct_sequence_iff.mp distinct v hv) (instantFree_sequence_iff.mp hfree v hv)
        (allKeys_sequence_iff.mp hkeys v hv)
    rw [thereAndBack, transcode_sequence, transcode_sequence, List.map_map, sequence.injEq]
    exact (List.map_congr_left hvalues).trans (List.map_id items)
  | _ => cases s <;> exact fun _ _ _ => rfl

theorem stable_of_alike_thereAndBack (v : Value) :
    v.Distinct → alike (v.thereAndBack s) v = true → v.InstantFree ∧ v.AllKeys s.Stable := by
  induction v using nestedInduction with
  | instant t =>
    intro _ h
    cases s <;> cases h
  | record r ih =>
    intro distinct h
    obtain ⟨hnodup, hdistinct⟩ := distinct_record_iff.mp distinct
    obtain ⟨result, hresult⟩ : ∃ result, (record r).thereAndBack s = record result := ⟨_, rfl⟩
    have hstable := stable_of_alike hresult (hresult ▸ h)
    have hvalues : ∀ e ∈ r, alike (e.2.thereAndBack s) e.2 = true := by
      intro e he
      rw [thereAndBack_record hnodup hstable, alike_record_iff] at h
      obtain ⟨w, hw, halike⟩ := h.2 (e.1, e.2.thereAndBack s) (List.mem_map.mpr ⟨e, he, rfl⟩)
      cases (Record.get?_eq_some_of_mem hnodup he).symm.trans hw
      exact halike
    have hinner := fun e he => ih e he (hdistinct e he) (hvalues e he)
    exact ⟨instantFree_record_iff.mpr fun e he => (hinner e he).1,
      allKeys_record_iff.mpr ⟨hstable, fun e he => (hinner e he).2⟩⟩
  | sequence items ih =>
    intro distinct h
    rw [thereAndBack, transcode_sequence, transcode_sequence, List.map_map, alike_map_sequence_iff] at h
    have hinner := fun v hv => ih v hv (distinct_sequence_iff.mp distinct v hv) (h v hv)
    exact ⟨instantFree_sequence_iff.mpr fun v hv => (hinner v hv).1,
      allKeys_sequence_iff.mpr fun v hv => (hinner v hv).2⟩
  | _ => exact fun _ _ => ⟨fun t h => (nomatch h), fun r h => (nomatch h)⟩

/-- A round trip gives a value again exactly when no instant stands in it and every key at every depth
is stable, whether the order of entries counts or not. -/
theorem thereAndBack_iff (s : Spelling) {v : Value} (distinct : v.Distinct) :
    (v.thereAndBack s = v ↔ v.InstantFree ∧ v.AllKeys s.Stable) ∧
      (alike (v.thereAndBack s) v = true ↔ v.InstantFree ∧ v.AllKeys s.Stable) := by
  have hstable : alike (v.thereAndBack s) v = true → v.InstantFree ∧ v.AllKeys s.Stable :=
    stable_of_alike_thereAndBack v distinct
  have hequal : v.InstantFree ∧ v.AllKeys s.Stable → v.thereAndBack s = v := fun h =>
    thereAndBack_of_stable v distinct h.1 h.2
  have halike : v.thereAndBack s = v → alike (v.thereAndBack s) v = true := fun h =>
    h.symm ▸ alike_self v distinct
  exact ⟨⟨hstable ∘ halike, hequal⟩, ⟨hstable, halike ∘ hequal⟩⟩

/-- Which values the two spellings give back: a wire value through storage and a stored value through
the wire. -/
theorem roundTrips_iff {v : Value} (distinct : v.Distinct) :
    ((v.toSnake.toCamel = v ↔ v.InstantFree ∧ v.AllKeys Casing.CamelStable) ∧
      (alike v.toSnake.toCamel v = true ↔ v.InstantFree ∧ v.AllKeys Casing.CamelStable)) ∧
    ((v.toCamel.toSnake = v ↔ v.InstantFree ∧ v.AllKeys Casing.SnakeStable) ∧
      (alike v.toCamel.toSnake v = true ↔ v.InstantFree ∧ v.AllKeys Casing.SnakeStable)) :=
  ⟨thereAndBack_iff .camel distinct, thereAndBack_iff .snake distinct⟩

/-- A nested wire value whose keys are camel-stable and not all snake-stable. -/
theorem roundTrips_nested_notes :
    let v := record [("appliedDate", text "2024-01-15"), ("notes", sequence [record [("_Pin", bool true)]])]
    v.Distinct ∧ v.AllKeys Casing.CamelStable ∧ ¬ v.AllKeys Casing.SnakeStable := by
  intro v
  have distinct : v.Distinct := by
    simp [v, distinct_record_iff, distinct_sequence_iff, distinct_text, distinct_bool]
  have hcamel : v.toSnake.toCamel = v := by decide
  have hsnake : v.toCamel.toSnake ≠ v := by decide
  obtain ⟨hfree, hstable⟩ := (roundTrips_iff distinct).1.1.mp hcamel
  exact ⟨distinct, hstable, fun h => hsnake ((roundTrips_iff distinct).2.1.mpr ⟨hfree, h⟩)⟩

end Value
end JobTrail
