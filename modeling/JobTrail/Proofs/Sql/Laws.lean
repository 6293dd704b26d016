import JobTrail.Proofs.Results
import JobTrail.Proofs.Sql.Query
import JobTrail.Proofs.Uuid
import JobTrail.Proofs.Value.Record

/-!
# Laws of queries

What a query that succeeds has done, in terms of single rows and columns: the rows that pass its
conditions have the values that the conditions ask for, a change keeps the columns that it does not
assign, a new row has the values that were given for it, and a table that a query does not name stays
as it is.
-/

namespace JobTrail

/-! ## Columns of records -/

namespace Record

variable {r : Record} {c : String}

theorem column_eq_of_get? {v : Value} (h : r.get? c = some v) : r.column c = v := by
  rw [column, h]
  rfl

theorem column_cons (k : String) (v : Value) (r : Record) (c : String) :
    column ((k, v) :: r) c = if k = c then v else r.column c := by
  rw [column, get?_cons]
  split <;> rfl

theorem column_insert (r : Record) (k : String) (v : Value) (c : String) :
    (r.insert k v).column c = if k = c then v else r.column c := by
  rw [column, get?_insert]
  split <;> rfl

theorem column_eq_null_or_mem (r : Record) (c : String) : r.column c = .null ∨ (c, r.column c) ∈ r := by
  cases hfound : r.get? c with
  | none => exact .inl (by rw [column, hfound]; rfl)
  | some v =>
    rw [column_eq_of_get? hfound]
    exact .inr (mem_of_get?_eq_some hfound)

theorem column_map (names : List String) (f : String → Value) (h : c ∈ names) :
    column (names.map fun name => (name, f name)) c = f c := by
  induction names with
  | nil => cases h
  | cons name rest ih =>
    rw [List.map_cons, column_cons]
    split
    · rename_i he
      rw [he]
    · rename_i hne
      exact ih ((List.mem_cons.mp h).resolve_left (Ne.symm hne))

end Record

namespace Sql

/-! ## UUIDs as values -/

theorem castUuid_eq_ok {s : String} {v : Value} (h : castUuid (.text s) = .ok v) :
    ∃ digits, Uuid.parse? s = some digits ∧ v = .text (Uuid.print digits) := by
  simp only [castUuid] at h
  split at h
  · rename_i digits hdigits
    cases h
    exact ⟨digits, hdigits, rfl⟩
  · cases h

theorem isUuid_of_castUuid {s : String} {v : Value} (h : castUuid (.text s) = .ok v) : Uuid.isUuid s := by
  obtain ⟨digits, hdigits, -⟩ := castUuid_eq_ok h
  simp [Uuid.isUuid, hdigits]

theorem castUuid_eq_error {v : Value} {err : DatabaseError} (h : castUuid v = .error err) :
    err = .failed := by
  cases v with
  | null => cases h
  | text s =>
    simp only [castUuid] at h
    split at h
    · cases h
    · cases h
      rfl
  | _ =>
    cases h
    rfl

/-- A UUID that comes out of a cast is cast to itself. -/
theorem castUuid_idem {v w : Value} (h : castUuid v = .ok w) : castUuid w = .ok w := by
  cases v with
  | null =>
    cases h
    rfl
  | text s =>
    obtain ⟨digits, hdigits, rfl⟩ := castUuid_eq_ok h
    simp only [castUuid, Uuid.parse?_print (Uuid.isDigits_of_parse? hdigits)]
  | _ => cases h

theorem castUuid_print {digits : List Nat} (h : Uuid.IsDigits digits) :
    castUuid (.text (Uuid.print digits)) = .ok (.text (Uuid.print digits)) := by
  simp only [castUuid, Uuid.parse?_print h]

theorem castUuid_replicate {d : Nat} (hd : d < 16) :
    castUuid (.text (Uuid.print (List.replicate 32 d))) = .ok (.text (Uuid.print (List.replicate 32 d))) := by
  apply castUuid_print
  refine ⟨List.length_replicate, ?_⟩
  intro n hn
  rw [List.eq_of_mem_replicate hn]
  exact hd

/-- Two ids in the spelling of the server, the second of them new behind the first. -/
theorem exists_two_ids :
    ∃ one two : String, castUuid (.text one) = .ok (.text one) ∧ castUuid (.text two) = .ok (.text two) ∧
      Value.text two ∉ [Value.text one] :=
  ⟨Uuid.print (List.replicate 32 1), Uuid.print (List.replicate 32 2), castUuid_replicate (by decide),
    castUuid_replicate (by decide), by decide⟩

/-! ## Conditions -/

variable {e : Engine} {params : List Value} {conditions : List Condition} {test : Record → Bool}

theorem isEqual_iff {v w : Value} : isEqual v w = true ↔ v = w ∧ v ≠ .null := by
  cases v <;> cases w <;> simp [isEqual, Value.isNull]

theorem ne_null_of_castUuid {s : String} {v : Value} (h : castUuid (.text s) = .ok v) : v ≠ .null := by
  obtain ⟨digits, -, rfl⟩ := castUuid_eq_ok h
  simp

theorem isEqual_eq_decide (v : Value) {w : Value} (hw : w ≠ .null) : isEqual v w = decide (v = w) := by
  rw [Bool.eq_iff_iff, isEqual_iff, decide_eq_true_iff]
  constructor
  · intro h
    exact h.1
  · rintro rfl
    exact ⟨rfl, hw⟩

theorem isDifferent_eq_decide {v w : Value} (hv : v ≠ .null) (hw : w ≠ .null) :
    isDifferent v w = decide (v ≠ w) := by
  cases v <;> cases w <;> simp_all [isDifferent, Value.isNull]

theorem bind_parameter_eq_ok {place : Nat} {cast : Option String} {f : Record → Value}
    (h : (Operand.parameter place cast).bind e params = .ok f) :
    ∃ v w, params[place]? = some v ∧ castTo e v cast = .ok w ∧ ∀ r, f r = w := by
  obtain ⟨w, hw, rfl⟩ := map_eq_ok.mp h
  simp only [argument] at hw
  split at hw
  · rename_i v hv
    exact ⟨v, w, hv, hw, fun _ => rfl⟩
  · cases hw

/-- The rows that pass have the value that a condition equates a column with. -/
theorem column_eq_of_test (h : bindAll e params conditions = .ok test) {column : String} {place : Nat}
    {cast : Option String} (hc : .equals column (.parameter place cast) ∈ conditions) :
    ∃ v w, params[place]? = some v ∧ castTo e v cast = .ok w ∧
      ∀ r : Record, test r = true → r.column column = w := by
  obtain ⟨tests, htests, rfl⟩ := map_eq_ok.mp h
  obtain ⟨t, ht, hbind⟩ := exists_of_mapM_eq_ok htests hc
  obtain ⟨f, hf, rfl⟩ := map_eq_ok.mp hbind
  obtain ⟨v, w, hv, hw, hvalue⟩ := bind_parameter_eq_ok hf
  refine ⟨v, w, hv, hw, fun r hr => ?_⟩
  exact (isEqual_iff.mp (List.all_eq_true.mp hr _ ht)).1.trans (hvalue r)

theorem bindAll_cons (c : Condition) (rest : List Condition) :
    bindAll e params (c :: rest)
      = (c.bind e params).bind fun t => (bindAll e params rest).map fun test r => t r && test r := by
  simp only [bindAll, List.mapM_cons]
  cases c.bind e params with
  | error err => rfl
  | ok t => cases rest.mapM (Condition.bind e params) <;> rfl

theorem bindAll_singleton (c : Condition) : bindAll e params [c] = c.bind e params := by
  rw [bindAll_cons]
  cases c.bind e params with
  | error err => rfl
  | ok t => exact congrArg Except.ok (funext fun r => Bool.and_true (t r))

theorem argument_of_getElem? {place : Nat} {v : Value} (hplace : params[place]? = some v) (cast : Option String) :
    argument e params place cast = castTo e v cast := by
  rw [argument, hplace]

theorem bind_equals {place : Nat} {cast : Option String} {v w : Value} (hplace : params[place]? = some v)
    (hcast : castTo e v cast = .ok w) (hw : w ≠ .null) (column : String) :
    Condition.bind e params (.equals column (.parameter place cast)) = .ok fun r => decide (r.column column = w) := by
  rw [Condition.bind, Operand.bind, argument_of_getElem? hplace, hcast]
  exact congrArg Except.ok (funext fun r => isEqual_eq_decide (r.column column) hw)

theorem bind_equals_uuid {place : Nat} {id : String} (hplace : params[place]? = some (.text id)) (column : String) :
    Condition.bind e params (.equals column (.parameter place (some "uuid")))
      = (castUuid (.text id)).map fun v r => decide (r.column column = v) := by
  cases hid : castUuid (.text id) with
  | error err =>
    rw [Condition.bind, Operand.bind, argument_of_getElem? hplace, castTo, hid]
    rfl
  | ok v =>
    have hcast : castTo e (.text id) (some "uuid") = .ok v := hid
    exact bind_equals hplace hcast (ne_null_of_castUuid hid) column

theorem bind_differs_uuid {place : Nat} {id : String} (hplace : params[place]? = some (.text id)) (column : String) :
    Condition.bind e params (.differs column (.parameter place (some "uuid")))
      = (castUuid (.text id)).map fun v r => isDifferent (r.column column) v := by
  rw [Condition.bind, Operand.bind, argument_of_getElem? hplace, castTo]
  cases castUuid (.text id) <;> rfl

/-- A condition that a column holds a UUID passes the rows that hold it in any spelling of the parameter. -/
theorem bindAll_uuid (e : Engine) (column id : String) (rest : List Value) :
    bindAll e (.text id :: rest) [.equals column (.parameter 0 (some "uuid"))] =
      (castUuid (.text id)).map fun _ r => decide (castUuid (.text id) = .ok (r.column column)) := by
  rw [bindAll_singleton, bind_equals_uuid rfl]
  cases hid : castUuid (.text id) with
  | error err => rfl
  | ok v => simp [Except.map, eq_comm]

/-! ## Changes and new rows -/

theorem column_foldl_insert (sets : List (String × (Record → Value))) (r new : Record) {c : String}
    (h : ∀ s ∈ sets, s.1 ≠ c) :
    (sets.foldl (fun new s => new.insert s.1 (s.2 r)) new).column c = new.column c := by
  induction sets generalizing new with
  | nil => rfl
  | cons s rest ih =>
    obtain ⟨hs, hrest⟩ := List.forall_mem_cons.mp h
    rw [List.foldl_cons, ih _ hrest, Record.column_insert, if_neg hs]

theorem column_change (sets : List (String × (Record → Value))) (r : Record) {c : String}
    (h : ∀ s ∈ sets, s.1 ≠ c) : (change sets r).column c = r.column c :=
  column_foldl_insert sets r r h

theorem get?_change_of_mem {sets : List (String × (Record → Value))} (hnodup : (sets.map (·.1)).Nodup)
    {s : String × (Record → Value)} (h : s ∈ sets) (r : Record) : (change sets r).get? s.1 = some (s.2 r) := by
  have hother : ∀ (rest : List (String × (Record → Value))) (new : Record), (∀ t ∈ rest, t.1 ≠ s.1) →
      (rest.foldl (fun new t => new.insert t.1 (t.2 r)) new).get? s.1 = new.get? s.1 := by
    intro rest new hrest
    induction rest generalizing new with
    | nil => rfl
    | cons d rest ih =>
      obtain ⟨hd, hrest⟩ := List.forall_mem_cons.mp hrest
      rw [List.foldl_cons, ih _ hrest, Record.get?_insert, if_neg hd]
  obtain ⟨before, after, rfl⟩ := List.append_of_mem h
  have hlater : ∀ t ∈ after, t.1 ≠ s.1 := by
    intro t ht he
    rw [List.map_append, List.map_cons] at hnodup
    have hcons := (List.nodup_append.mp hnodup).2.1
    exact (List.nodup_cons.mp hcons).1 (he ▸ List.mem_map_of_mem ht)
  rw [change, List.foldl_append, List.foldl_cons, hother after _ hlater, Record.get?_insert, if_pos rfl]

theorem column_change_of_mem {sets : List (String × (Record → Value))} (hnodup : (sets.map (·.1)).Nodup)
    {s : String × (Record → Value)} (h : s ∈ sets) (r : Record) : (change sets r).column s.1 = s.2 r :=
  Record.column_eq_of_get? (get?_change_of_mem hnodup h r)

/-- A row that has the assigned values already is not changed. -/
theorem change_eq_self {sets : List (String × (Record → Value))} {r : Record}
    (h : ∀ s ∈ sets, r.get? s.1 = some (s.2 r)) : change sets r = r := by
  unfold change
  induction sets with
  | nil => rfl
  | cons s rest ih =>
    obtain ⟨hs, hrest⟩ := List.forall_mem_cons.mp h
    rw [List.foldl_cons, Record.insert_of_get? hs, ih hrest]

/-- A column of a changed row is as before, or it is assigned. -/
theorem column_change_cases (sets : List (String × (Record → Value))) (r : Record) (c : String) :
    (change sets r).column c = r.column c ∨ ∃ s ∈ sets, s.1 = c ∧ (change sets r).column c = s.2 r := by
  have hfold : ∀ new : Record, (sets.foldl (fun new s => new.insert s.1 (s.2 r)) new).column c = new.column c ∨
      ∃ s ∈ sets, s.1 = c ∧ (sets.foldl (fun new s => new.insert s.1 (s.2 r)) new).column c = s.2 r := by
    induction sets with
    | nil => exact fun _ => .inl rfl
    | cons d rest ih =>
      intro new
      rw [List.foldl_cons]
      rcases ih (new.insert d.1 (d.2 r)) with hsame | ⟨s, hs, hc, hvalue⟩
      · rw [Record.column_insert] at hsame
        split at hsame
        · rename_i hc
          exact .inr ⟨d, List.mem_cons_self, hc, hsame⟩
        · exact .inl hsame
      · exact .inr ⟨s, List.mem_cons_of_mem d hs, hc, hvalue⟩
  exact hfold r

theorem bindSets_columns {assignments : List (String × Operand)} {sets : List (String × (Record → Value))}
    (h : bindSets e params assignments = .ok sets) : sets.map (·.1) = assignments.map (·.1) := by
  induction assignments generalizing sets with
  | nil =>
    cases h
    rfl
  | cons a rest ih =>
    rw [bindSets, List.mapM_cons] at h
    obtain ⟨s, hs, h⟩ := bind_eq_ok.mp h
    obtain ⟨tail, htail, h⟩ := bind_eq_ok.mp h
    obtain ⟨f, -, rfl⟩ := map_eq_ok.mp hs
    cases h
    rw [List.map_cons, List.map_cons, ih htail]

theorem column_change_of_bindSets {assignments : List (String × Operand)}
    {sets : List (String × (Record → Value))} (h : bindSets e params assignments = .ok sets) {c : String}
    (hc : c ∉ assignments.map (·.1)) (r : Record) : (change sets r).column c = r.column c := by
  refine column_change sets r fun s hs he => hc ?_
  rw [← bindSets_columns h, ← he]
  exact List.mem_map_of_mem hs

/-- A column of a new row whose value is a parameter. -/
theorem column_newRow (table : String) {columns : List String} {values : List Operand}
    {fs : List (Record → Value)} (h : values.mapM (Operand.bind e params) = .ok fs) {c : String}
    {o : Operand} (hc : (columns.zip values).lookup c = some o) :
    ∃ f, o.bind e params = .ok f ∧ (newRow e table columns (fs.map fun f => f [])).column c = f [] := by
  rw [newRow]
  generalize (e.defaults table).filter _ = others
  induction columns generalizing values fs with
  | nil => cases hc
  | cons name rest ih =>
    cases values with
    | nil => cases hc
    | cons d more =>
      rw [List.mapM_cons] at h
      obtain ⟨f, hf, h⟩ := bind_eq_ok.mp h
      obtain ⟨tail, htail, h⟩ := bind_eq_ok.mp h
      cases h
      rw [List.map_cons, List.zip_cons_cons, List.cons_append, Record.column_cons]
      rw [List.zip_cons_cons, List.lookup_cons] at hc
      by_cases he : name = c
      · subst he
        simp only [beq_self_eq_true, Option.some.injEq] at hc
        subst hc
        exact ⟨f, hf, if_pos rfl⟩
      · have hne : (c == name) = false := beq_false_of_ne (Ne.symm he)
        rw [if_neg he]
        exact ih htail (by simpa [hne] using hc)

theorem column_newRow_parameter {table : String} {columns : List String} {values : List Operand}
    {fs : List (Record → Value)} (h : values.mapM (Operand.bind e params) = .ok fs) {c : String}
    {place : Nat} {cast : Option String} (hc : (columns.zip values).lookup c = some (.parameter place cast))
    {v : Value} (hv : params[place]? = some v) :
    castTo e v cast = .ok ((newRow e table columns (fs.map fun f => f [])).column c) := by
  obtain ⟨f, hf, hcolumn⟩ := column_newRow table h hc
  obtain ⟨v', w, hv', hw, hvalue⟩ := bind_parameter_eq_ok hf
  cases hv.symm.trans hv'
  rw [hcolumn, hvalue, hw]

/-- A column of a new row that the query leaves out. -/
theorem column_newRow_of_notMem (e : Engine) (table : String) {columns : List String} (values : List Value)
    {c : String} (h : c ∉ columns) : (newRow e table columns values).column c = (e.defaults table).column c := by
  have hgiven : (columns.zip values).find? (fun d => d.1 = c) = none := by
    rw [List.find?_eq_none]
    intro d hd he
    exact h (of_decide_eq_true he ▸ (List.of_mem_zip hd).1)
  have hothers : ((e.defaults table).filter fun d => d.1 ∉ columns).find? (fun d => d.1 = c)
      = (e.defaults table).find? (fun d => d.1 = c) := by
    rw [List.find?_filter]
    congr 1
    funext d
    by_cases he : d.1 = c
    · simp [he, h]
    · simp [he]
  rw [newRow, Record.column, Record.column, Record.get?, Record.get?, List.find?_append, hgiven, hothers]
  rfl

theorem rows_set (db : Database) (table t : String) (rows : List Record) :
    (db.set table rows).rows t = if t = table then rows else db.rows t := rfl

theorem set_rows_self (db : Database) (table : String) : db.set table (db.rows table) = db := by
  cases db
  unfold Database.set
  congr
  funext t
  split
  · rename_i ht
    rw [ht]
  · rfl

/-! ## Queries that succeed -/

section Run

variable {db db' : Database} {rows : List Record} {table : String} {returning : Option Columns}

theorem run_select {columns : Columns} {join : Option Join} {order : List SortKey}
    (h : (Query.select columns table join conditions order).run e params db = .ok (rows, db')) :
    db' = db ∧ ∃ test, bindAll e params conditions = .ok test ∧
      ∀ row ∈ rows, ∃ r ∈ db.rows table, test r = true ∧ ∃ found ∈ Join.rows db r join,
        row = columns.pick found := by
  obtain ⟨test, htest, h⟩ := bind_eq_ok.mp h
  cases h
  refine ⟨rfl, test, htest, ?_⟩
  intro row hrow
  obtain ⟨found, hfound, rfl⟩ := List.mem_map.mp hrow
  obtain ⟨r, hr, hjoin⟩ := List.mem_flatMap.mp ((e.arrange_perm _ _).mem_iff.mp hfound)
  obtain ⟨hmem, hpass⟩ := List.mem_filter.mp hr
  exact ⟨r, hmem, hpass, found, hjoin, rfl⟩

/-- A query on one table answers the rows that pass. -/
theorem run_select_eq (columns : Columns) (order : List SortKey) :
    (Query.select columns table none conditions order).run e params db =
      (bindAll e params conditions).map fun test =>
        ((e.arrange order ((db.rows table).filter test)).map fun r => columns.pick r, db) := by
  cases htest : bindAll e params conditions with
  | error err => simp [Query.run, htest, Except.map, bind, Except.bind]
  | ok test => simp [Query.run, htest, Except.map, bind, Except.bind, pure, Except.pure, Join.rows]

/-- A query for one text in a column answers the rows that have it. -/
theorem run_select_text (columns : Columns) (order : List SortKey) (column value : String) :
    (Query.select columns table none [.equals column (.parameter 0 none)] order).run e [.text value] db =
      .ok ((e.arrange order ((db.rows table).filter fun r => r.column column = .text value)).map
        fun r => columns.pick r, db) := by
  rw [run_select_eq, bindAll_singleton, bind_equals rfl rfl (by simp)]
  rfl

/-- A query for a UUID in a column answers the rows that have it. -/
theorem run_select_uuid (columns : Columns) (order : List SortKey) (column id : String) :
    (Query.select columns table none [.equals column (.parameter 0 (some "uuid"))] order).run e [.text id] db =
      ((castUuid (.text id)).map fun _ =>
        (e.arrange order ((db.rows table).filter fun r => castUuid (.text id) = .ok (r.column column))).map
          fun r => columns.pick r).map fun rows => (rows, db) := by
  rw [run_select_eq, bindAll_uuid]
  cases castUuid (.text id) <;> rfl

theorem arrange_eq_nil_iff {order : List SortKey} : e.arrange order rows = [] ↔ rows = [] := by
  constructor
  · intro h
    exact List.nil_perm.mp (h ▸ e.arrange_perm order rows)
  · rintro rfl
    exact (e.arrange_perm order []).eq_nil

theorem run_insert {columns : List String} {values : List Operand} {skipPresent : Bool}
    (h : (Query.insert table columns values skipPresent returning).run e params db = .ok (rows, db')) :
    ∃ fs, values.mapM (Operand.bind e params) = .ok fs ∧
      (skipPresent = true ∧ db' = db ∧ rows = [] ∨
        db' = db.set table (db.rows table ++ [newRow e table columns (fs.map fun f => f [])]) ∧
          rows = answerRows returning [newRow e table columns (fs.map fun f => f [])]) := by
  obtain ⟨fs, hfs, h⟩ := bind_eq_ok.mp h
  refine ⟨fs, hfs, ?_⟩
  simp only at h
  split at h
  · rename_i hpresent
    cases h
    exact .inl ⟨(Bool.and_eq_true_iff.mp hpresent).1, rfl, rfl⟩
  · cases h
    exact .inr ⟨rfl, rfl⟩

theorem run_update {assignments : List (String × Operand)}
    (h : (Query.update table assignments conditions returning).run e params db = .ok (rows, db')) :
    ∃ sets test, bindSets e params assignments = .ok sets ∧ bindAll e params conditions = .ok test ∧
      db' = db.set table ((db.rows table).map fun r => if test r then change sets r else r) ∧
      rows = answerRows returning (((db.rows table).filter test).map (change sets)) := by
  obtain ⟨sets, hsets, h⟩ := bind_eq_ok.mp h
  obtain ⟨test, htest, h⟩ := bind_eq_ok.mp h
  cases h
  exact ⟨sets, test, hsets, htest, rfl, rfl⟩

theorem run_update_eq {assignments : List (String × Operand)} {sets : List (String × (Record → Value))}
    (hsets : bindSets e params assignments = .ok sets) :
    (Query.update table assignments conditions returning).run e params db =
      (bindAll e params conditions).map fun test =>
        (answerRows returning (((db.rows table).filter test).map (change sets)),
          db.set table ((db.rows table).map fun r => if test r then change sets r else r)) := by
  rw [Query.run, hsets]
  cases bindAll e params conditions <;> rfl

theorem run_delete_eq :
    (Query.delete table conditions returning).run e params db =
      (bindAll e params conditions).map fun test =>
        (answerRows returning ((db.rows table).filter test),
          db.set table ((db.rows table).filter fun r => !test r)) := by
  rw [Query.run]
  cases bindAll e params conditions <;> rfl

theorem run_delete
    (h : (Query.delete table conditions returning).run e params db = .ok (rows, db')) :
    ∃ test, bindAll e params conditions = .ok test ∧
      db' = db.set table ((db.rows table).filter fun r => !test r) ∧
      rows = answerRows returning ((db.rows table).filter test) := by
  obtain ⟨test, htest, h⟩ := bind_eq_ok.mp h
  cases h
  exact ⟨test, htest, rfl, rfl⟩

end Run
end Sql
end JobTrail
