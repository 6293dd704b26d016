import JobTrail.Value.Transcode
import Mathlib.Data.List.Induction
import Mathlib.Data.List.Nodup
import Mathlib.Data.List.Perm.Subperm

/-!
# Records as ordered maps

What writing entries one after the other leaves behind: the keys are distinct, each key has the value
of its last entry, and a list whose keys are distinct already is kept as it is. Transcoding a record is
such a writing, so these laws say what becomes of keys that get one spelling.
-/

namespace JobTrail

namespace Record

variable {r : Record} {key : String} {v : Value}

@[simp] theorem keys_nil : keys [] = [] := rfl

@[simp] theorem keys_cons (e : String × Value) (r : Record) : keys (e :: r) = e.1 :: keys r := rfl

theorem mem_keys_iff : key ∈ r.keys ↔ ∃ v, (key, v) ∈ r := by
  simp [keys]

theorem mem_keys_of_mem (h : (key, v) ∈ r) : key ∈ r.keys := mem_keys_iff.mpr ⟨v, h⟩

@[simp] theorem get?_nil (key : String) : get? [] key = none := rfl

theorem get?_cons (k : String) (v : Value) (r : Record) (key : String) :
    get? ((k, v) :: r) key = if k = key then some v else r.get? key := by
  by_cases h : k = key <;> simp [get?, h]

theorem mem_of_get?_eq_some (h : r.get? key = some v) : (key, v) ∈ r := by
  obtain ⟨⟨k, w⟩, hfound, rfl⟩ := Option.map_eq_some_iff.mp h
  have hk : k = key := by simpa using List.find?_some hfound
  subst hk
  exact List.mem_of_find?_eq_some hfound

theorem get?_eq_none_iff : r.get? key = none ↔ key ∉ r.keys := by
  induction r with
  | nil => simp
  | cons e rest ih =>
    obtain ⟨k, v⟩ := e
    by_cases h : k = key
    · simp [get?_cons, h]
    · simp [get?_cons, h, ih, Ne.symm h]

theorem get?_eq_some_of_mem (distinct : r.keys.Nodup) (h : (key, v) ∈ r) : r.get? key = some v := by
  induction r with
  | nil => cases h
  | cons e rest ih =>
    obtain ⟨k, w⟩ := e
    obtain ⟨hk, hrest⟩ := List.nodup_cons.mp distinct
    rcases List.mem_cons.mp h with heq | hmem
    · cases heq
      simp [get?_cons]
    · have hne : k ≠ key := fun he => hk (he ▸ mem_keys_of_mem hmem)
      rw [get?_cons, if_neg hne]
      exact ih hrest hmem

theorem get?_insert (r : Record) (k : String) (v : Value) (key : String) :
    (r.insert k v).get? key = if k = key then some v else r.get? key := by
  induction r with
  | nil => simp [insert, get?_cons]
  | cons e rest ih =>
    obtain ⟨l, old⟩ := e
    by_cases hl : l = k
    · subst hl
      by_cases h : l = key <;> simp [insert, get?_cons, h]
    · rw [insert, if_neg hl, get?_cons, get?_cons, ih]
      by_cases h : l = key
      · have hk : k ≠ key := fun he => hl (h.trans he.symm)
        rw [if_pos h, if_neg hk, if_pos h]
      · rw [if_neg h, if_neg h]

theorem keys_insert (r : Record) (k : String) (v : Value) :
    (r.insert k v).keys = if k ∈ r.keys then r.keys else r.keys ++ [k] := by
  induction r with
  | nil => simp [insert]
  | cons e rest ih =>
    obtain ⟨l, old⟩ := e
    by_cases hl : l = k
    · simp [insert, hl]
    · by_cases hk : k ∈ keys rest <;> simp [insert, hl, ih, hk, Ne.symm hl]

theorem mem_keys_insert (r : Record) (k : String) (v : Value) (key : String) :
    key ∈ (r.insert k v).keys ↔ key ∈ r.keys ∨ key = k := by
  rw [keys_insert]
  split
  · rename_i h
    exact ⟨Or.inl, fun hk => hk.elim id fun he => he ▸ h⟩
  · simp

theorem nodup_insert (distinct : r.keys.Nodup) (k : String) (v : Value) : (r.insert k v).keys.Nodup := by
  rw [keys_insert]
  split
  · exact distinct
  · rename_i h
    exact distinct.append (List.nodup_singleton k) (by simpa using h)

theorem mem_insert {k : String} {entry : String × Value} (h : entry ∈ r.insert k v) :
    entry = (k, v) ∨ entry ∈ r := by
  induction r with
  | nil => exact .inl (List.mem_singleton.mp h)
  | cons d rest ih =>
    obtain ⟨l, old⟩ := d
    rw [insert] at h
    split at h
    · rename_i he
      rcases List.mem_cons.mp h with heq | hmem
      · exact .inl (he ▸ heq)
      · exact .inr (List.mem_cons_of_mem _ hmem)
    · rcases List.mem_cons.mp h with heq | hmem
      · exact .inr (heq ▸ List.mem_cons_self)
      · exact (ih hmem).imp_right (List.mem_cons_of_mem _)

theorem insert_of_notMem (h : key ∉ r.keys) : r.insert key v = r ++ [(key, v)] := by
  induction r with
  | nil => rfl
  | cons e rest ih =>
    obtain ⟨l, old⟩ := e
    simp only [keys_cons, List.mem_cons, not_or] at h
    simp [insert, Ne.symm h.1, ih h.2]

theorem insert_of_get? (h : r.get? key = some v) : r.insert key v = r := by
  induction r with
  | nil => cases h
  | cons e rest ih =>
    obtain ⟨k, w⟩ := e
    rw [get?_cons] at h
    by_cases hk : k = key
    · rw [if_pos hk] at h
      cases h
      rw [insert, if_pos hk]
    · rw [if_neg hk] at h
      rw [insert, if_neg hk, ih h]

theorem keys_erase (r : Record) (key : String) : (r.erase key).keys = r.keys.erase key := by
  induction r with
  | nil => rfl
  | cons e rest ih =>
    obtain ⟨k, v⟩ := e
    rw [erase] at ih ⊢
    by_cases h : k = key
    · simp [h]
    · simp [h, ih]

theorem notMem_keys_erase (distinct : r.keys.Nodup) (key : String) : key ∉ (r.erase key).keys := by
  rw [keys_erase]
  exact distinct.not_mem_erase

theorem get?_erase_of_ne {k : String} (h : k ≠ key) : (r.erase k).get? key = r.get? key := by
  induction r with
  | nil => rfl
  | cons e rest ih =>
    obtain ⟨l, v⟩ := e
    rw [erase] at ih ⊢
    by_cases hl : l = k
    · have hkey : l ≠ key := fun he => h (hl.symm.trans he)
      simp [get?_cons, hl ▸ hkey, hl]
    · simp [get?_cons, hl, ih]

theorem ofList_concat (entries : List (String × Value)) (k : String) (v : Value) :
    ofList (entries ++ [(k, v)]) = (ofList entries).insert k v := by
  simp [ofList]

/-- At each key stands the value of the last entry that was written there. -/
theorem get?_ofList (entries : List (String × Value)) (key : String) :
    (ofList entries).get? key = (entries.reverse.find? (·.1 = key)).map (·.2) := by
  induction entries using List.reverseRecOn with
  | nil => rfl
  | append_singleton entries e ih =>
    obtain ⟨k, v⟩ := e
    rw [ofList_concat, get?_insert, ih]
    by_cases h : k = key <;> simp [h]

theorem keys_ofList_nodup (entries : List (String × Value)) : (ofList entries).keys.Nodup := by
  induction entries using List.reverseRecOn with
  | nil => exact List.nodup_nil
  | append_singleton entries e ih =>
    obtain ⟨k, v⟩ := e
    rw [ofList_concat]
    exact nodup_insert ih k v

theorem mem_keys_ofList (entries : List (String × Value)) (key : String) :
    key ∈ (ofList entries).keys ↔ key ∈ entries.map (·.1) := by
  induction entries using List.reverseRecOn with
  | nil => rfl
  | append_singleton entries e ih =>
    obtain ⟨k, v⟩ := e
    rw [ofList_concat, mem_keys_insert, ih]
    simp

/-- Writing makes no entry up. -/
theorem mem_of_mem_ofList {entries : List (String × Value)} {e : String × Value} (h : e ∈ ofList entries) :
    e ∈ entries := by
  have hget : (ofList entries).get? e.1 = some e.2 := get?_eq_some_of_mem (keys_ofList_nodup entries) h
  rw [get?_ofList] at hget
  obtain ⟨⟨k, v⟩, hfound, rfl⟩ := Option.map_eq_some_iff.mp hget
  have hk : k = e.1 := by simpa using List.find?_some hfound
  subst hk
  exact List.mem_reverse.mp (List.mem_of_find?_eq_some hfound)

theorem ofList_of_nodup {entries : List (String × Value)} (distinct : (entries.map (·.1)).Nodup) :
    ofList entries = entries := by
  induction entries using List.reverseRecOn with
  | nil => rfl
  | append_singleton entries e ih =>
    obtain ⟨k, v⟩ := e
    rw [List.map_append, List.nodup_append'] at distinct
    obtain ⟨hentries, -, hdisjoint⟩ := distinct
    have hfresh : k ∉ keys entries := fun h => hdisjoint h (by simp)
    rw [ofList_concat, ih hentries, insert_of_notMem hfresh]

end Record

end JobTrail
