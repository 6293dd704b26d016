import JobTrail.Proofs.Patch
import JobTrail.Proofs.Value.Plain
import JobTrail.Proofs.Value.RoundTrip

/-!
# Writing a row back

A client that gets a row and sends it back as a patch changes nothing. On the way out the keys take the wire
spelling and the instants are written out; on the way in the keys take the storage spelling again. For keys
that are stable the second change undoes the first, at every depth and without two keys of a record becoming
one, so each field is assigned the value that the row has, with its instants written out.
-/

namespace JobTrail

/-- On a value with stable keys, the way to the wire and back only writes out the instants. -/
theorem Value.toSnake_toCamel {v : Value} (distinct : v.Distinct) (stable : v.AllKeys Casing.SnakeStable) :
    v.toCamel.toSnake = v.plain := by
  rw [← toCamel_plain]
  exact thereAndBack_of_stable v.plain (distinct_plain v distinct) (instantFree_plain v)
    (allKeys_plain v stable)

section Row

variable {row : Record} (distinct : (Value.record row).Distinct)
  (stable : (Value.record row).AllKeys Casing.SnakeStable)
include distinct stable

/-- The patch that a row makes sets the fields that the row has. -/
theorem patchedFields_toCamel (allow : List String) :
    patchedFields allow (Value.record row).toCamel
      = (allow.filter (· ∈ row.keys)).map fun field => (field, (row.column field).plain) := by
  rw [patchedFields, Value.toSnake_toCamel distinct stable, Value.plain_record, Value.record?,
    Option.getD_some]
  induction allow with
  | nil => rfl
  | cons field rest ih =>
    rw [List.filterMap_cons, Record.get?_map, ih]
    cases hfound : row.get? field with
    | none =>
      have habsent : field ∉ row.keys := Record.get?_eq_none_iff.mp hfound
      simp [habsent]
    | some v =>
      have hpresent : field ∈ row.keys := Record.mem_keys_of_mem (Record.mem_of_get?_eq_some hfound)
      have hcolumn : row.column field = v := by simp [Record.column, hfound, Value.ofOption]
      simp [hpresent, hcolumn]

/-- The wire form of a row compiles to an update that assigns exactly the allow-listed fields of the row, each
to the value that the row has; without such a field it is refused. -/
theorem compileUpdate_toCamel (allow : List String) (scope : List Value) (style : PlaceholderStyle) :
    compileUpdate allow scope (Value.record row).toCamel style =
      if allow.filter (· ∈ row.keys) = [] then .error .noFieldsToUpdate
      else .ok {
        fields := allow.filter (· ∈ row.keys)
        params := (allow.filter (· ∈ row.keys)).map (fun field => (row.column field).plain) ++ scope
        assignments := (allow.filter (· ∈ row.keys)).mapIdx fun i field =>
          field ++ " = " ++ style.render i
        style } := by
  rw [compileUpdate, patchedFields_toCamel distinct stable]
  cases allow.filter (· ∈ row.keys) with
  | nil => rfl
  | cons field rest =>
    rw [if_neg (List.cons_ne_nil field rest), List.map_cons]
    simp [List.mapIdx_eq_zipIdx_map, List.zipIdx_map, Function.comp_def]

end Row

/-- A row with an instant of its own and one further down. -/
def interviewRow : Record :=
  [("applied_date", .instant ⟨1705276800, 0⟩), ("status", .text "Interview"),
    ("history", .sequence [.record [("changed_at", .instant ⟨1705276800, 500000000⟩)]])]

theorem compileUpdate_toCamel_interview :
    (Value.record interviewRow).Distinct ∧ (Value.record interviewRow).AllKeys Casing.SnakeStable ∧
      compileUpdate ["history", "notes", "applied_date"] [.text "7"] (Value.record interviewRow).toCamel
        .numbered = .ok {
          fields := ["history", "applied_date"]
          params := [.sequence [.record [("changed_at", .text "2024-01-15T00:00:00.500Z")]],
            .text "2024-01-15T00:00:00.000Z", .text "7"]
          assignments := ["history = $1", "applied_date = $2"]
          style := .numbered } := by
  have distinct : (Value.record interviewRow).Distinct := by
    simp [interviewRow, Value.distinct_record_iff, Value.distinct_sequence_iff, Value.distinct_text,
      Value.distinct_instant]
  have stable : (Value.record interviewRow).AllKeys Casing.SnakeStable := by
    have hkeys : ∀ key ∈ ["applied_date", "status", "history", "changed_at"], Casing.SnakeStable key := by
      intro key hkey
      have hback : Casing.snake (Casing.camel key) = key :=
        (by decide : ∀ key ∈ ["applied_date", "status", "history", "changed_at"],
          Casing.snake (Casing.camel key) = key) key hkey
      rw [← hback]
      exact Casing.snakeStable_snake_camel key
    simp only [List.forall_mem_cons] at hkeys
    obtain ⟨hdate, hstatus, hhistory, hchanged, -⟩ := hkeys
    simp [interviewRow, Value.allKeys_record_iff, Value.allKeys_sequence_iff, hdate, hstatus, hhistory,
      hchanged, Value.allKeys_text, Value.allKeys_instant]
  refine ⟨distinct, stable, (compileUpdate_toCamel distinct stable _ _ _).trans ?_⟩
  rfl

end JobTrail
