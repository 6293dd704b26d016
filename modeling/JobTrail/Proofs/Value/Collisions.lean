import JobTrail.Proofs.Value.Within

/-!
# Keys that fall together

What becomes of a record when two of its keys get one spelling. The new keys stand in the order of the old
ones, a repeated one at its first place only, and each has the value of the last old key that became it; so
the place and the value of a key can come from different entries. A record inside a record follows the same
law, since values are respelled before they are written. The wire form of a row and of each of many rows is
the one that its record has as a value.
-/

namespace JobTrail

namespace Record

variable {r : Record} {entries : List (String × Value)}

/-! ## Writing entries one after the other -/

theorem keys_ofList (entries : List (String × Value)) :
    (ofList entries).keys = (entries.map (·.1)).eraseDups := by
  induction entries using List.reverseRecOn with
  | nil => rfl
  | append_singleton entries e ih =>
    obtain ⟨k, v⟩ := e
    have hmem := mem_keys_ofList entries k
    rw [ofList_concat, keys_insert, List.map_append, List.eraseDups_append, ← ih]
    by_cases h : k ∈ (ofList entries).keys
    · rw [if_pos h]
      simp [List.removeAll, hmem.mp h]
    · rw [if_neg h]
      have hnot : k ∉ entries.map (·.1) := fun hk => h (hmem.mpr hk)
      simp [List.removeAll, List.eraseDups_cons, hnot]

theorem get?_ofList_last {before after : List (String × Value)} {key : String} (v : Value)
    (h : ∀ e ∈ after, e.1 ≠ key) : (ofList (before ++ (key, v) :: after)).get? key = some v := by
  have hlast : after.reverse.find? (·.1 = key) = none :=
    List.find?_eq_none.mpr fun e he => by simpa using h e (List.mem_reverse.mp he)
  rw [get?_ofList, List.reverse_append, List.reverse_cons, List.append_assoc, List.find?_append, hlast]
  simp

/-- No entry is lost exactly when all were written under different keys. -/
theorem length_ofList_eq_iff :
    (ofList entries).length = entries.length ↔ (entries.map (·.1)).Nodup := by
  constructor
  · intro h
    have hsubset : (ofList entries).keys ⊆ entries.map (·.1) := fun key hkey =>
      (mem_keys_ofList entries key).mp hkey
    have hperm : (ofList entries).keys.Perm (entries.map (·.1)) :=
      (List.subperm_of_subset (keys_ofList_nodup entries) hsubset).perm_of_length_le (by simp [keys, h])
    exact hperm.nodup_iff.mp (keys_ofList_nodup entries)
  · intro h
    rw [ofList_of_nodup h]

/-! ## Respelling a record -/

/-- `result` is what respelling makes of a record. -/
structure Respelled (s : Spelling) (r result : Record) : Prop where
  /-- The first of the keys that fall together gives the place. -/
  keys : result.keys = (r.keys.map s.rename).eraseDups
  /-- The last of the keys that fall together gives the value. -/
  values : ∀ before k v after, r = before ++ (k, v) :: after →
    (∀ e ∈ after, s.rename e.1 ≠ s.rename k) → result.get? (s.rename k) = some (v.transcode s)
  lossless : result.length = r.length ↔ ∀ k ∈ r.keys, ∀ l ∈ r.keys, s.rename k = s.rename l → k = l

theorem respelled_ofList (s : Spelling) (distinct : r.keys.Nodup) :
    r.Respelled s (ofList (r.map fun e => (s.rename e.1, e.2.transcode s))) := by
  have hkeys : (r.map fun e => (s.rename e.1, e.2.transcode s)).map (·.1) = r.keys.map s.rename := by
    simp [Record.keys, Function.comp_def]
  constructor
  · rw [keys_ofList, hkeys]
  · intro before k v after hr hlast
    subst hr
    rw [List.map_append, List.map_cons]
    apply get?_ofList_last
    intro e he
    obtain ⟨d, hd, rfl⟩ := List.mem_map.mp he
    exact hlast d hd
  · rw [← List.nodup_map_iff_inj_on distinct, ← hkeys, ← length_ofList_eq_iff, List.length_map]

end Record

namespace Value

theorem toCamel_record (r : Record) : (record r).toCamel = record r.toCamel :=
  transcode_record .camel r

theorem respelled_toCamel {r : Record} (distinct : r.keys.Nodup) : r.Respelled .camel r.toCamel :=
  Record.respelled_ofList .camel distinct

theorem rowsToCamel_eq (rows : List Record) :
    Record.rowsToCamel rows = sequence (rows.map Record.rowToCamel) := by
  have hrows : ∀ row ∈ rows, (record row).toCamel = row.rowToCamel := fun row _ => toCamel_record row
  rw [Record.rowsToCamel, toCamel, transcode_sequence, List.map_map]
  exact congrArg sequence (List.map_congr_left hrows)

/-- One law for the keys that fall together, in both directions and wherever a record is respelled. -/
theorem collisions_alike (s : Spelling) {r : Record} (distinct : r.keys.Nodup) :
    (∃ result, (record r).transcode s = record result ∧ r.Respelled s result) ∧
    r.Respelled .camel r.toCamel ∧ (record r).toCamel = record r.toCamel ∧
    r.rowToCamel = record r.toCamel ∧
    ∀ (rows : List Record) (i : Nat), rows[i]? = some r →
      ∃ items, Record.rowsToCamel rows = sequence items ∧ items[i]? = some (record r.toCamel) := by
  refine ⟨⟨_, transcode_record s r, Record.respelled_ofList s distinct⟩, respelled_toCamel distinct,
    toCamel_record r, rfl, fun rows i hrow => ⟨_, rowsToCamel_eq rows, ?_⟩⟩
  rw [List.getElem?_map, hrow]
  rfl

/-- Of three columns two have one wire spelling: the first gives the place, the last the value. -/
theorem collisions_alike_note :
    let r : Record := [("is_pinned", bool false), ("note", text "call back"), ("isPinned", bool true)]
    r.keys.Nodup ∧ r.toCamel = [("isPinned", bool true), ("note", text "call back")] ∧
      r.Respelled .camel r.toCamel ∧
      ∃ items, Record.rowsToCamel [[], r] = sequence items ∧ items[1]? = some (record r.toCamel) := by
  intro r
  have distinct : r.keys.Nodup := by decide
  have hwire : r.toCamel = [("isPinned", bool true), ("note", text "call back")] := by decide
  obtain ⟨-, hrespelled, -, -, hrows⟩ := collisions_alike .camel distinct
  exact ⟨distinct, hwire, hrespelled, hrows [[], r] 1 rfl⟩

end Value
end JobTrail
