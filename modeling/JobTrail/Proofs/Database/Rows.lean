import JobTrail.Proofs.Database.Binding

/-!
# Rows by the names of their types

The name of a column's type decides how its cells are read, and the name that a parameter is sent with leads back
to the reading of its cell. So a record comes back from the columns of its own parameters.
-/

namespace JobTrail

variable {r r' : Record} {v : Value} {key : String} {c : Column} {row : Row}

/-! ## Single columns -/

/-- Where the type has a reading, the cell is read by it. -/
theorem Column.value_of_reads (hlisted : ColumnType.ofName c.typeName ≠ .other)
    (h : (ColumnType.ofName c.typeName).reads c.cell) : c.value = c.cell.value := by
  unfold Column.value
  generalize ColumnType.ofName c.typeName = type at hlisted h
  cases type with
  | other => exact absurd rfl hlisted
  | _ => exact if_pos h

namespace Value

/-- The column that a value comes back in, if the server has the parameter for its cell. -/
def column (v : Value) (name : String) : Column := ⟨name, v.bind.typeName, v.bind.toCell⟩

theorem ofName_typeName_bind_ne (v : Value) :
    ColumnType.ofName v.bind.typeName ≠ .other ∧ ColumnType.ofName v.bind.typeName ≠ .bytes := by
  cases v.bind <;> exact ⟨nofun, nofun⟩

theorem reads_column (v : Value) (name : String) :
    (ColumnType.ofName (v.column name).typeName).reads (v.column name).cell := by
  cases v with
  | number n =>
    cases n with
    | int n =>
      by_cases hfits : fitsInt64 n
      · have hbind : (number (.int n)).bind = .whole n := if_pos hfits
        obtain ⟨hleast, hgreatest⟩ := hfits
        rw [column, hbind]
        exact Bool.and_eq_true_iff.mpr ⟨decide_eq_true hleast, decide_eq_true (by omega)⟩
      · have hbind : (number (.int n)).bind = .real (Binary64.ofInt n) := if_neg hfits
        rw [column, hbind]
        rfl
    | real d => rfl
  | sequence items =>
    rw [column, bind]
    cases items.mapM text? <;> rfl
  | _ => rfl

theorem value_column (storable : v.Storable) (hfits : v.FitsBytes) (name : String) :
    (v.column name).value = .ok v := by
  rw [Column.value_of_reads (ofName_typeName_bind_ne v).1 (reads_column v name)]
  have hreturned : v.bind.toCell.returned? = some v.bound := by
    rw [bind_eq_written storable.distinct]
    exact carried?_bound storable hfits
  exact (Cell.value_of_returned? hreturned).trans (congrArg Except.ok (value_bound storable))

end Value

/-! ## Rows -/

theorem Row.toRecord_concat (row : Row) (c : Column) :
    Row.toRecord (row ++ [c]) = row.toRecord >>= fun r => r.addColumn c := by
  rw [toRecord, List.foldlM_append]
  exact congrArg (toRecord row >>= ·) (funext fun r => bind_pure _)

theorem Record.mem_keys_addColumn (h : r.addColumn c = .ok r') :
    key ∈ r'.keys ↔ key ∈ r.keys ∨ c.name = key ∧ ColumnType.ofName c.typeName ≠ .bytes := by
  rw [addColumn] at h
  by_cases htype : ColumnType.ofName c.typeName = .bytes
  · rw [if_pos htype] at h
    cases h
    simp [htype]
  · rw [if_neg htype] at h
    cases hvalue : c.value with
    | error err =>
      rw [hvalue] at h
      cases h
    | ok v =>
      rw [hvalue] at h
      cases h
      rw [mem_keys_insert]
      simp [htype, eq_comm, or_comm]

/-- A row is read under the names of all its columns but those of bytes. -/
theorem Row.mem_keys_toRecord (h : row.toRecord = .ok r) :
    key ∈ r.keys ↔ ∃ c ∈ row, c.name = key ∧ ColumnType.ofName c.typeName ≠ .bytes := by
  induction row using List.reverseRecOn generalizing r with
  | nil =>
    cases h
    simp
  | append_singleton front c ih =>
    rw [toRecord_concat] at h
    cases hfront : toRecord front with
    | error err =>
      rw [hfront] at h
      cases h
    | ok acc =>
      rw [hfront] at h
      rw [Record.mem_keys_addColumn h, ih hfront]
      simp [or_and_right, exists_or]

theorem Record.addColumn_column (storable : v.Storable) (hfits : v.FitsBytes) (hfresh : key ∉ r.keys) :
    r.addColumn (v.column key) = .ok (r ++ [(key, v)]) := by
  have htype : ColumnType.ofName (v.column key).typeName ≠ .bytes := (Value.ofName_typeName_bind_ne v).2
  rw [addColumn, if_neg htype, Value.value_column storable hfits, ← Record.insert_of_notMem hfresh]
  rfl

/-- A record comes back from the columns of its own parameters. -/
theorem Row.toRecord_columns (distinct : r.keys.Nodup) (h : ∀ e ∈ r, e.2.Storable ∧ e.2.FitsBytes) :
    Row.toRecord (r.map fun e => e.2.column e.1) = .ok r := by
  induction r using List.reverseRecOn with
  | nil => rfl
  | append_singleton front e ih =>
    have hkeys : (Record.keys front ++ [e.1]).Nodup := by simpa [Record.keys] using distinct
    obtain ⟨hfront, -, hdisjoint⟩ := List.nodup_append.mp hkeys
    have hfresh : e.1 ∉ Record.keys front := fun hmem => hdisjoint _ hmem _ List.mem_cons_self rfl
    obtain ⟨hrest, hlast⟩ := List.forall_mem_append.mp h
    obtain ⟨storable, hfits⟩ := hlast e List.mem_cons_self
    rw [List.map_append, List.map_singleton, Row.toRecord_concat, ih hfront hrest]
    exact Record.addColumn_column storable hfits hfresh

end JobTrail
