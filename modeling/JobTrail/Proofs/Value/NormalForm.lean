import JobTrail.Proofs.Text.Casing
import JobTrail.Proofs.Value.Within

/-!
# Values at rest

The values that a change of spelling leaves alone. Toward the wire these have no instant and no key with a
mark, toward storage they have no key with a capital, at any depth. What a change of spelling answers is
always such a value: the scan of a key leaves nothing that it would take up again, and a record that has
just been written has distinct keys, so no two of them can fall together a second time.
-/

namespace JobTrail

/-! ## Keys -/

namespace Spelling

/-- The keys that are spelled so already. -/
def Normal : Spelling → String → Prop
  | camel, key => Casing.Unmarked key.toList
  | snake, key => ∀ c ∈ key.toList, ¬ c.isUpper

theorem rename_eq_self_iff (s : Spelling) (key : String) : s.rename key = key ↔ s.Normal key := by
  cases s with
  | camel => exact Casing.camel_eq_self_iff key
  | snake => exact Casing.snake_eq_self_iff key

theorem normal_rename (s : Spelling) (key : String) : s.Normal (s.rename key) := by
  cases s with
  | camel =>
    rw [Normal, rename, Casing.camel, String.toList_ofList]
    exact Casing.unmarked_camelChars key.toList
  | snake =>
    rw [Normal, rename, Casing.snake, String.toList_ofList]
    exact Casing.not_isUpper_snakeChars key.toList

end Spelling

/-! ## Values -/

namespace Value

variable {s : Spelling} {r : Record} {items : List Value}

/-- What a change of spelling leaves alone. -/
structure Normal (s : Spelling) (v : Value) : Prop where
  distinct : v.Distinct
  keys : v.AllKeys s.Normal
  /-- On the way to the wire the instants have become texts. -/
  instantFree : s = .camel → v.InstantFree

theorem normal_record_iff :
    (record r).Normal s ↔ r.keys.Nodup ∧ (∀ key ∈ r.keys, s.Normal key) ∧ ∀ e ∈ r, e.2.Normal s := by
  constructor
  · intro h
    obtain ⟨hnodup, hdistinct⟩ := distinct_record_iff.mp h.distinct
    obtain ⟨hkeys, hentries⟩ := allKeys_record_iff.mp h.keys
    refine ⟨hnodup, hkeys, fun e he => ⟨hdistinct e he, hentries e he, fun hs => ?_⟩⟩
    exact instantFree_record_iff.mp (h.instantFree hs) e he
  · intro ⟨hnodup, hkeys, hentries⟩
    constructor
    · exact distinct_record_iff.mpr ⟨hnodup, fun e he => (hentries e he).distinct⟩
    · exact allKeys_record_iff.mpr ⟨hkeys, fun e he => (hentries e he).keys⟩
    · exact fun hs => instantFree_record_iff.mpr fun e he => (hentries e he).instantFree hs

theorem normal_sequence_iff : (sequence items).Normal s ↔ ∀ v ∈ items, v.Normal s := by
  constructor
  · intro h v hv
    constructor
    · exact distinct_sequence_iff.mp h.distinct v hv
    · exact allKeys_sequence_iff.mp h.keys v hv
    · exact fun hs => instantFree_sequence_iff.mp (h.instantFree hs) v hv
  · intro h
    constructor
    · exact distinct_sequence_iff.mpr fun v hv => (h v hv).distinct
    · exact allKeys_sequence_iff.mpr fun v hv => (h v hv).keys
    · exact fun hs => instantFree_sequence_iff.mpr fun v hv => (h v hv).instantFree hs

/-- A change of spelling ends in a value at rest. -/
theorem normal_transcode (s : Spelling) (v : Value) : (v.transcode s).Normal s := by
  induction v using nestedInduction with
  | instant t =>
    cases s with
    | camel => exact ⟨distinct_text _, allKeys_text _, fun _ _ h => nomatch h⟩
    | snake => exact ⟨distinct_instant t, allKeys_instant t, fun hs => nomatch hs⟩
  | record r ih =>
    rw [transcode_record, normal_record_iff]
    refine ⟨Record.keys_ofList_nodup _, fun key hkey => ?_, fun e he => ?_⟩
    · rw [Record.mem_keys_ofList, List.map_map] at hkey
      obtain ⟨e, -, rfl⟩ := List.mem_map.mp hkey
      exact s.normal_rename e.1
    · obtain ⟨d, hd, rfl⟩ := List.mem_map.mp (Record.mem_of_mem_ofList he)
      exact ih d hd
  | sequence items ih =>
    rw [transcode_sequence, normal_sequence_iff]
    exact List.forall_mem_map.mpr ih
  | _ => exact ⟨fun _ h => (nomatch h), fun _ h => (nomatch h), fun _ _ h => nomatch h⟩

theorem transcode_of_normal (v : Value) : v.Normal s → v.transcode s = v := by
  induction v using nestedInduction with
  | instant t =>
    intro h
    cases s with
    | camel => exact absurd (.here _) (h.instantFree rfl t)
    | snake => rfl
  | record r ih =>
    intro h
    obtain ⟨hnodup, hkeys, hentries⟩ := normal_record_iff.mp h
    have hsame : r.map (fun e => (s.rename e.1, e.2.transcode s)) = r.map id := by
      apply List.map_congr_left
      intro e he
      have hkey : s.rename e.1 = e.1 := (s.rename_eq_self_iff e.1).mpr (hkeys e.1 (Record.mem_keys_of_mem he))
      rw [hkey, ih e he (hentries e he)]
      rfl
    rw [transcode_record, hsame, List.map_id, Record.ofList_of_nodup hnodup]
  | sequence items ih =>
    intro h
    have hitems := normal_sequence_iff.mp h
    have hsame : items.map (transcode s) = items.map id :=
      List.map_congr_left fun v hv => ih v hv (hitems v hv)
    rw [transcode_sequence, hsame, List.map_id]
  | _ => exact fun _ => rfl

/-- A change of spelling leaves exactly the values at rest alone. -/
theorem transcode_eq_self_iff (v : Value) : v.transcode s = v ↔ v.Normal s := by
  constructor
  · intro h
    rw [← h]
    exact normal_transcode s v
  · exact transcode_of_normal v

/-- Spelling a value again in the same way changes nothing, not even the order of an entry. -/
theorem transcode_transcode (s : Spelling) (v : Value) :
    (v.transcode s).transcode s = v.transcode s :=
  (transcode_eq_self_iff _).mpr (normal_transcode s v)

/-- On the wire no instant and no mark is left at any depth, in storage no capital, and either spelling is
reached at once. -/
theorem spellings_settle (v : Value) :
    (v.toCamel.InstantFree ∧ v.toCamel.AllKeys (fun key => Casing.Unmarked key.toList) ∧
      v.toCamel.toCamel = v.toCamel) ∧
    (v.toSnake.AllKeys (fun key => ∀ c ∈ key.toList, ¬ c.isUpper) ∧ v.toSnake.toSnake = v.toSnake) := by
  have hcamel := normal_transcode .camel v
  have hsnake := normal_transcode .snake v
  exact ⟨⟨hcamel.instantFree rfl, hcamel.keys, transcode_transcode .camel v⟩,
    hsnake.keys, transcode_transcode .snake v⟩

end Value
end JobTrail
