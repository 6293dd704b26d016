import JobTrail.Proofs.Value.Within
import JobTrail.Value.Printer

/-!
# What the text of a value keeps

The JSON text of a value has its instants written out. `plain` is the value that such a text denotes: it
has no instant at any depth and the same keys at every depth, and on its way to the wire nothing else
happens to it than to the value itself.
-/

namespace JobTrail

/-- Changing the values of a record leaves each at its key. -/
theorem Record.get?_map (f : Value → Value) (r : Record) (key : String) :
    Record.get? (r.map fun e => (e.1, f e.2)) key = (r.get? key).map f := by
  induction r with
  | nil => rfl
  | cons e rest ih =>
    obtain ⟨k, v⟩ := e
    by_cases h : k = key
    · simp [get?_cons, h]
    · simp [get?_cons, h, ih]

theorem Record.keys_map (f : Value → Value) (r : Record) :
    Record.keys (r.map fun e => (e.1, f e.2)) = r.keys := by
  simp [keys, Function.comp_def]

/-- Changing the values and writing the entries may be done in either order. -/
theorem Record.ofList_map (f : Value → Value) (entries : List (String × Value)) :
    Record.ofList (entries.map fun e => (e.1, f e.2)) = (Record.ofList entries).map fun e => (e.1, f e.2) := by
  have hinsert : ∀ (r : Record) key v,
      Record.insert (r.map fun e => (e.1, f e.2)) key (f v) = (r.insert key v).map fun e => (e.1, f e.2) := by
    intro r key v
    induction r with
    | nil => rfl
    | cons e rest ih =>
      obtain ⟨k, old⟩ := e
      by_cases h : k = key
      · simp [insert, h]
      · simp [insert, h, ih]
  induction entries using List.reverseRecOn with
  | nil => rfl
  | append_singleton entries e ih =>
    obtain ⟨k, v⟩ := e
    rw [List.map_append, List.map_singleton, ofList_concat, ofList_concat, ih, hinsert]

namespace Value

variable {P : String → Prop}

theorem plainEntries_eq_map (entries : List (String × Value)) :
    plainEntries entries = entries.map fun e => (e.1, e.2.plain) := by
  induction entries with
  | nil => rfl
  | cons e rest ih =>
    obtain ⟨k, v⟩ := e
    simp [plainEntries, ih]

theorem plainItems_eq_map (items : List Value) : plainItems items = items.map plain := by
  induction items with
  | nil => rfl
  | cons v rest ih => simp [plainItems, ih]

theorem plain_record (r : Record) : (record r).plain = record (r.map fun e => (e.1, e.2.plain)) := by
  rw [plain, plainEntries_eq_map]

theorem plain_sequence (items : List Value) : (sequence items).plain = sequence (items.map plain) := by
  rw [plain, plainItems_eq_map]

theorem instantFree_plain (v : Value) : v.plain.InstantFree := by
  induction v using nestedInduction with
  | record r ih =>
    rw [plain_record, instantFree_record_iff]
    exact List.forall_mem_map.mpr ih
  | sequence items ih =>
    rw [plain_sequence, instantFree_sequence_iff]
    exact List.forall_mem_map.mpr ih
  | _ => exact fun _ h => nomatch h

theorem plain_of_instantFree (v : Value) : v.InstantFree → v.plain = v := by
  induction v using nestedInduction with
  | instant t => exact fun h => absurd (.here _) (h t)
  | record r ih =>
    intro h
    have hentries := instantFree_record_iff.mp h
    rw [plain_record, record.injEq]
    exact (List.map_congr_left fun e he => congrArg (Prod.mk e.1) (ih e he (hentries e he))).trans (List.map_id r)
  | sequence items ih =>
    intro h
    have hitems := instantFree_sequence_iff.mp h
    rw [plain_sequence, sequence.injEq]
    exact (List.map_congr_left fun v hv => ih v hv (hitems v hv)).trans (List.map_id items)
  | _ => exact fun _ => rfl

theorem allKeys_plain (v : Value) : v.AllKeys P → v.plain.AllKeys P := by
  induction v using nestedInduction with
  | record r ih =>
    intro h
    obtain ⟨hkeys, hentries⟩ := allKeys_record_iff.mp h
    rw [plain_record, allKeys_record_iff, Record.keys_map]
    exact ⟨hkeys, List.forall_mem_map.mpr fun e he => ih e he (hentries e he)⟩
  | sequence items ih =>
    intro h
    rw [plain_sequence, allKeys_sequence_iff]
    exact List.forall_mem_map.mpr fun v hv => ih v hv (allKeys_sequence_iff.mp h v hv)
  | _ => exact fun _ _ h => nomatch h

theorem distinct_plain (v : Value) : v.Distinct → v.plain.Distinct := by
  induction v using nestedInduction with
  | record r ih =>
    intro h
    obtain ⟨hkeys, hentries⟩ := distinct_record_iff.mp h
    rw [plain_record, distinct_record_iff, Record.keys_map]
    exact ⟨hkeys, List.forall_mem_map.mpr fun e he => ih e he (hentries e he)⟩
  | sequence items ih =>
    intro h
    rw [plain_sequence, distinct_sequence_iff]
    exact List.forall_mem_map.mpr fun v hv => ih v hv (distinct_sequence_iff.mp h v hv)
  | _ => exact fun _ _ h => nomatch h

/-- On the way to the wire the instants are written out anyway. -/
theorem toCamel_plain (v : Value) : v.plain.toCamel = v.toCamel := by
  induction v using nestedInduction with
  | record r ih =>
    rw [plain_record, toCamel, toCamel, transcode_record, transcode_record, List.map_map]
    have hentries : r.map (fun e => (Spelling.camel.rename e.1, e.2.plain.transcode .camel))
        = r.map fun e => (Spelling.camel.rename e.1, e.2.transcode .camel) :=
      List.map_congr_left fun e he => congrArg (Prod.mk _) (ih e he)
    exact congrArg (fun entries => record (Record.ofList entries)) hentries
  | sequence items ih =>
    rw [plain_sequence, toCamel, toCamel, transcode_sequence, transcode_sequence, List.map_map,
      sequence.injEq]
    exact List.map_congr_left ih
  | _ => rfl

/-- On the way to storage the instants stay, and it does not matter when they are written out. -/
theorem toSnake_plain (v : Value) : v.plain.toSnake = v.toSnake.plain := by
  induction v using nestedInduction with
  | record r ih =>
    rw [plain_record, toSnake, toSnake, transcode_record, transcode_record, plain_record, List.map_map,
      ← Record.ofList_map, List.map_map]
    have hentries : r.map (fun e => (Spelling.snake.rename e.1, e.2.plain.transcode .snake))
        = r.map fun e => (Spelling.snake.rename e.1, (e.2.transcode .snake).plain) :=
      List.map_congr_left fun e he => congrArg (Prod.mk _) (ih e he)
    exact congrArg (fun entries => record (Record.ofList entries)) hentries
  | sequence items ih =>
    rw [plain_sequence, toSnake, toSnake, transcode_sequence, transcode_sequence, plain_sequence, List.map_map,
      List.map_map, sequence.injEq]
    exact List.map_congr_left ih
  | _ => rfl

theorem printEntries_eq_map (entries : List (String × Value)) :
    printEntries entries = entries.map fun e => quoteJson e.1 ++ ":" ++ e.2.print := by
  induction entries with
  | nil => rfl
  | cons e rest ih => rw [printEntries, ih, List.map_cons]

theorem printItems_eq_map (items : List Value) : printItems items = items.map print := by
  induction items with
  | nil => rfl
  | cons v rest ih => rw [printItems, ih, List.map_cons]

/-- An instant is printed as the text that it becomes. -/
theorem print_plain (v : Value) : v.plain.print = v.print := by
  induction v using nestedInduction with
  | record r ih =>
    rw [plain_record, print, print, printEntries_eq_map, printEntries_eq_map, List.map_map]
    have hentries : r.map ((fun e => quoteJson e.1 ++ ":" ++ e.2.print) ∘ fun e => (e.1, e.2.plain))
        = r.map fun e => quoteJson e.1 ++ ":" ++ e.2.print :=
      List.map_congr_left fun e he => congrArg (quoteJson e.1 ++ ":" ++ ·) (ih e he)
    rw [hentries]
  | sequence items ih =>
    have hitems : items.map (print ∘ plain) = items.map print := List.map_congr_left fun v hv => ih v hv
    rw [plain_sequence, print, print, printItems_eq_map, printItems_eq_map, List.map_map, hitems]
  | _ => rfl

end Value
end JobTrail
