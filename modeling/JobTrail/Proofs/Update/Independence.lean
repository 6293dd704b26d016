import JobTrail.Proofs.Update.Rendering

/-!
# What a statement depends on

Two patches side by side. The text of a statement depends only on which allow-listed fields are set, the
whole statement only on those fields and their values, so keys that are foreign to the allow-list change
nothing. The order of the keys does not matter as long as no two of them share a storage spelling.
-/

namespace JobTrail

/-! ## Keys without repetitions -/

section Keys

variable {α κ : Type} [DecidableEq κ] (key : α → κ) {l l' : List α}

/-- Under distinct keys the last element with a key is the only one. -/
theorem find?_reverse_eq_some_iff (distinct : (l.map key).Nodup) {k : κ} {a : α} :
    l.reverse.find? (fun x => key x = k) = some a ↔ a ∈ l ∧ key a = k := by
  constructor
  · intro h
    have hkey := List.find?_some h
    exact ⟨List.mem_reverse.mp (List.mem_of_find?_eq_some h), by simpa using hkey⟩
  · rintro ⟨ha, hkey⟩
    cases hfound : l.reverse.find? fun x => key x = k with
    | none =>
      have hnone := List.find?_eq_none.mp hfound a (List.mem_reverse.mpr ha)
      simp [hkey] at hnone
    | some b =>
      have hb := List.mem_reverse.mp (List.mem_of_find?_eq_some hfound)
      have hkey' : key b = k := by simpa using List.find?_some hfound
      rw [List.inj_on_of_nodup_map distinct hb ha (hkey'.trans hkey.symm)]

theorem find?_reverse_perm (h : l.Perm l') (distinct : (l.map key).Nodup) (k : κ) :
    l.reverse.find? (fun x => key x = k) = l'.reverse.find? (fun x => key x = k) := by
  have distinct' := (h.map key).nodup_iff.mp distinct
  apply Option.ext
  intro a
  rw [find?_reverse_eq_some_iff key distinct, find?_reverse_eq_some_iff key distinct', h.mem_iff]

end Keys

namespace Value

/-! ## The stored value of a field -/

theorem get?_toSnake (v : Value) (field : String) :
    v.toSnake.get? field = (v.lastSpelled? field).map fun e => e.2.toSnake := by
  rw [← get?_getD_record?, stored_get?]

theorem lastSpelled?_record (r : Record) (field : String) :
    (record r).lastSpelled? field = r.reverse.find? fun e => Casing.snake e.1 = field := rfl

theorem lastSpelled?_perm {r s : Record} (h : r.Perm s) (distinct : (r.map fun e => Casing.snake e.1).Nodup)
    (field : String) : (record r).lastSpelled? field = (record s).lastSpelled? field :=
  find?_reverse_perm (fun e : String × Value => Casing.snake e.1) h distinct field

theorem lastSpelled?_filter {allow : List String} {field : String} (hfield : field ∈ allow) (r : Record) :
    (record (r.filter fun e => Casing.snake e.1 ∈ allow)).lastSpelled? field
      = (record r).lastSpelled? field := by
  simp only [lastSpelled?_record, ← List.filter_reverse, List.find?_filter]
  congr 1
  funext e
  by_cases h : Casing.snake e.1 = field <;> simp [h, hfield]

end Value

/-! ## Two patches -/

section TwoPatches

variable {allow : List String} {t : UpdateTemplate} {scope : List Value} {p q : Value}

theorem patchedFields_congr (h : ∀ field ∈ allow, p.toSnake.get? field = q.toSnake.get? field) :
    patchedFields allow p = patchedFields allow q := by
  simp only [patchedFields, Value.get?_getD_record?]
  apply List.filterMap_congr
  intro field hfield
  rw [h field hfield]

theorem compile_congr (h : ∀ field ∈ t.allow, p.toSnake.get? field = q.toSnake.get? field) :
    t.compile scope p = t.compile scope q := by
  simp only [UpdateTemplate.compile, compileUpdate, patchedFields_congr h]

theorem sqlText_congr {u u' : CompiledUpdate} (hfields : u.fields = u'.fields)
    (hassignments : u.assignments = u'.assignments) (hstyle : u.style = u'.style) :
    t.sqlText u = t.sqlText u' := by
  simp only [UpdateTemplate.sqlText, UpdateTemplate.setTexts, UpdateTemplate.scopeTexts,
    CompiledUpdate.scopePlaceholder, hfields, hassignments, hstyle]

theorem map_sql_congr (h : ∀ field ∈ t.allow, field ∈ p.toSnake.keys ↔ field ∈ q.toSnake.keys)
    (scope scope' : List Value) :
    (t.compile scope p).map (·.sql) = (t.compile scope' q).map (·.sql) := by
  have hp := CompiledUpdate.aligned_gather t.allow p.toSnake .numbered
  have hq := CompiledUpdate.aligned_gather t.allow q.toSnake .numbered
  have hfields := calc
    (CompiledUpdate.gather t.allow p.toSnake .numbered).fields
      = t.allow.filter (· ∈ p.toSnake.keys) := hp.fields
    _ = t.allow.filter (· ∈ q.toSnake.keys) :=
      List.filter_congr fun field hfield => decide_eq_decide.mpr (h field hfield)
    _ = (CompiledUpdate.gather t.allow q.toSnake .numbered).fields := hq.fields.symm
  rw [UpdateTemplate.compile_eq_map, UpdateTemplate.compile_eq_map, CompiledUpdate.compileUpdate_eq_gather,
    CompiledUpdate.compileUpdate_eq_gather, hfields]
  split
  · rfl
  · apply congrArg Except.ok
    apply sqlText_congr
    · exact hfields
    · rw [hp.assignments, hq.assignments, hfields]
    · rw [hp.style, hq.style]

theorem get?_toSnake_congr_of_filter {r s : Record}
    (h : r.filter (fun e => Casing.snake e.1 ∈ allow) = s.filter fun e => Casing.snake e.1 ∈ allow)
    {field : String} (hfield : field ∈ allow) :
    (Value.record r).toSnake.get? field = (Value.record s).toSnake.get? field := by
  rw [Value.get?_toSnake, Value.get?_toSnake, ← Value.lastSpelled?_filter hfield r,
    ← Value.lastSpelled?_filter hfield s, h]

/-- A client decides with a patch which allow-listed fields a statement sets and to which values, and
nothing else: not a word of the text beyond the choice of fields, nothing by foreign keys, and nothing by
the order of keys that are spelled differently in storage. -/
theorem statement_depends_on_fields (t : UpdateTemplate) (scope : List Value) (p q : Value) :
    ((∀ field ∈ t.allow, field ∈ p.toSnake.keys ↔ field ∈ q.toSnake.keys) →
      ∀ scope', (t.compile scope p).map (·.sql) = (t.compile scope' q).map (·.sql)) ∧
    ((∀ field ∈ t.allow, p.toSnake.get? field = q.toSnake.get? field) →
      t.compile scope p = t.compile scope q) ∧
    (∀ r s, p = .record r → q = .record s →
      r.filter (fun e => Casing.snake e.1 ∈ t.allow) = s.filter (fun e => Casing.snake e.1 ∈ t.allow) →
      t.compile scope p = t.compile scope q) ∧
    (∀ r s, p = .record r → q = .record s → r.Perm s → (r.map fun e => Casing.snake e.1).Nodup →
      t.compile scope p = t.compile scope q) := by
  refine ⟨?_, ?_, ?_, ?_⟩
  · intro h scope'
    exact map_sql_congr h scope scope'
  · exact compile_congr
  · rintro r s rfl rfl h
    apply compile_congr
    intro field hfield
    exact get?_toSnake_congr_of_filter h hfield
  · rintro r s rfl rfl hperm distinct
    apply compile_congr
    intro field _
    rw [Value.get?_toSnake, Value.get?_toSnake, Value.lastSpelled?_perm hperm distinct]

theorem statement_depends_on_fields_reversed :
    let t : UpdateTemplate :=
      ⟨"notes", ["title", "pinned_at"], [("pinned_at", "date")], [⟨"id", none⟩], "*"⟩
    let r : Record := [("pinnedAt", .null), ("Title", .text "a"), ("secret", .bool true)]
    (r.map fun e => Casing.snake e.1).Nodup ∧
      t.compile [.text "7"] (.record r) = t.compile [.text "7"] (.record r.reverse) := by
  intro t r
  have distinct : (r.map fun e => Casing.snake e.1).Nodup := by decide
  have hcompile := (statement_depends_on_fields t [.text "7"] (.record r) (.record r.reverse)).2.2.2
  exact ⟨distinct, hcompile r r.reverse rfl rfl r.reverse_perm.symm distinct⟩

end TwoPatches
end JobTrail
