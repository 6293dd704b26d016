import JobTrail.Proofs.Sql.Updates
import JobTrail.Proofs.Storage.Runs
import JobTrail.Resume.Tailored

/-!
# Statements on resumes

What each statement on resumes does to their table, row by row. A statement fails only if a parameter
cannot be cast, and then it changes nothing.
-/

set_option maxRecDepth 8192

namespace JobTrail.Resume

open Sql Storage

variable {e : Engine} {s s' : Storage} {id user : String}

def IsRow (target owner : Value) (r : Record) : Prop := r.column "id" = target ∧ r.column "user_id" = owner

instance (target owner : Value) (r : Record) : Decidable (IsRow target owner r) :=
  inferInstanceAs (Decidable (_ ∧ _))

def demoted (r : Record) : Record := r.insert "is_primary" (.bool false)

def newResume (e : Engine) (id owner : Value) (draft : Draft) : Record :=
  newRow e "resumes" ["id", "user_id", "name", "file_name", "file_uri", "is_primary"]
    [id, owner, .text draft.name, .text draft.fileName, .text draft.fileUri, .bool draft.primary]

theorem newResume_columns (e : Engine) (id owner : Value) (draft : Draft) :
    (newResume e id owner draft).column "id" = id ∧ (newResume e id owner draft).column "user_id" = owner ∧
      (newResume e id owner draft).column "file_uri" = .text draft.fileUri ∧
      (newResume e id owner draft).column "is_primary" = .bool draft.primary := by
  simp [newResume, newRow, Record.column_cons]

theorem column_demoted (r : Record) (c : String) :
    (demoted r).column c = if "is_primary" = c then .bool false else r.column c :=
  Record.column_insert ..

/-! ## Conditions -/

/-- The conditions on a row id and its owner, after a number of other parameters. -/
def rowConditions (before : Nat) : List Condition :=
  [.equals "id" (.parameter before (some "uuid")), .equals "user_id" (.parameter (before + 1) (some "uuid"))]

def castScope (id user : String) : Except DatabaseError (Value × Value) := do
  let target ← castUuid (.text id)
  let owner ← castUuid (.text user)
  return (target, owner)

theorem castScope_eq_ok_iff {scope : Value × Value} :
    castScope id user = .ok scope ↔
      castUuid (.text id) = .ok scope.1 ∧ castUuid (.text user) = .ok scope.2 := by
  obtain ⟨target, owner⟩ := scope
  rw [castScope]
  cases castUuid (.text id) <;> cases castUuid (.text user) <;> simp [bind, Except.bind, pure, Except.pure]

theorem bindAll_rowConditions (e : Engine) (values : List Value) (id user : String) :
    bindAll e (values ++ [.text id, .text user]) (rowConditions values.length)
      = (castScope id user).map fun scope r => decide (IsRow scope.1 scope.2 r) := by
  have hid : (values ++ [Value.text id, Value.text user])[values.length]? = some (.text id) := by simp
  have huser : (values ++ [Value.text id, Value.text user])[values.length + 1]? = some (.text user) := by
    simp
  rw [rowConditions, bindAll_cons, bindAll_singleton, bind_equals_uuid hid, bind_equals_uuid huser, castScope]
  cases castUuid (.text id) with
  | error err => rfl
  | ok target =>
    cases castUuid (.text user) with
    | error err => rfl
    | ok owner => exact congrArg Except.ok (funext fun r => (Bool.decide_and ..).symm)

/-- Nothing stands before the row id and its owner. -/
theorem bindAll_rowConditions_alone (e : Engine) (id user : String) :
    bindAll e [.text id, .text user] (rowConditions 0)
      = (castScope id user).map fun scope r => decide (IsRow scope.1 scope.2 r) :=
  bindAll_rowConditions e [] id user

/-! ## Statements -/

theorem runs_demoteAll_iff {x : Except ServiceError (List Record)} :
    (Service.execute "UPDATE resumes SET is_primary = FALSE WHERE user_id = $1::uuid"
        [.text user]).run.Runs e s x s' ↔
      (∃ owner, castUuid (.text user) = .ok owner ∧ x = .ok [] ∧
        s' = s.set "resumes" ((s.db.rows "resumes").map fun r =>
          if r.column "user_id" = owner then demoted r else r)) ∨
        ∃ err, castUuid (.text user) = .error err ∧ x = .error (.database err) ∧ s' = s := by
  let q := Query.update "resumes" [("is_primary", .constant (.bool false))]
    [.equals "user_id" (.parameter 0 (some "uuid"))] none
  have hread : read? "UPDATE resumes SET is_primary = FALSE WHERE user_id = $1::uuid" = some q :=
    (spells_ofList _).read? (by decide)
  have hrun : q.run e [.text user] s.db = (castUuid (.text user)).map fun owner =>
      ([], s.db.set "resumes" ((s.db.rows "resumes").map fun r =>
        if r.column "user_id" = owner then demoted r else r)) := by
    rw [run_update_eq rfl, bindAll_singleton, bind_equals_uuid rfl]
    cases castUuid (.text user) with
    | error err => rfl
    | ok owner => simp [Except.map, answerRows, change, demoted]
  exact runs_execute_map_iff hread hrun

theorem runs_demoteOthers_iff {x : Except ServiceError (List Record)} :
    (Service.execute "UPDATE resumes SET is_primary = FALSE WHERE user_id = $1::uuid AND id != $2::uuid"
        [.text user, .text id]).run.Runs e s x s' ↔
      (∃ scope, castScope id user = .ok scope ∧ x = .ok [] ∧
        s' = s.set "resumes" ((s.db.rows "resumes").map fun r =>
          if r.column "user_id" = scope.2 ∧ isDifferent (r.column "id") scope.1 then demoted r else r)) ∨
        ∃ err, castScope id user = .error err ∧ x = .error (.database err) ∧ s' = s := by
  let q := Query.update "resumes" [("is_primary", .constant (.bool false))]
    [.equals "user_id" (.parameter 0 (some "uuid")), .differs "id" (.parameter 1 (some "uuid"))] none
  have hread : read? "UPDATE resumes SET is_primary = FALSE WHERE user_id = $1::uuid AND id != $2::uuid"
      = some q := (spells_ofList _).read? (by decide)
  have htest : bindAll e [.text user, .text id]
      [.equals "user_id" (.parameter 0 (some "uuid")), .differs "id" (.parameter 1 (some "uuid"))]
        = (castScope id user).map fun scope r =>
          decide (r.column "user_id" = scope.2 ∧ isDifferent (r.column "id") scope.1) := by
    rw [bindAll_cons, bindAll_singleton, bind_equals_uuid rfl, bind_differs_uuid rfl, castScope]
    cases howner : castUuid (.text user) with
    | error err =>
      cases htarget : castUuid (.text id) with
      | error err' =>
        rw [castUuid_eq_error howner, castUuid_eq_error htarget]
        rfl
      | ok target => rfl
    | ok owner =>
      cases castUuid (.text id) with
      | error err => rfl
      | ok target => exact congrArg Except.ok (funext fun r => by simp)
  have hrun : q.run e [.text user, .text id] s.db = (castScope id user).map fun scope =>
      ([], s.db.set "resumes" ((s.db.rows "resumes").map fun r =>
        if r.column "user_id" = scope.2 ∧ isDifferent (r.column "id") scope.1 then demoted r else r)) := by
    rw [run_update_eq rfl, htest]
    cases castScope id user with
    | error err => rfl
    | ok scope => simp [Except.map, answerRows, change, demoted]
  exact runs_execute_map_iff hread hrun

theorem runs_demoteOthers_of_cast {scope : Value × Value} (hscope : castScope id user = .ok scope)
    {x : Except ServiceError (List Record)} :
    (Service.execute "UPDATE resumes SET is_primary = FALSE WHERE user_id = $1::uuid AND id != $2::uuid"
        [.text user, .text id]).run.Runs e s x s' ↔
      x = .ok [] ∧ s' = s.set "resumes" ((s.db.rows "resumes").map fun r =>
        if r.column "user_id" = scope.2 ∧ isDifferent (r.column "id") scope.1 then demoted r else r) := by
  simp [runs_demoteOthers_iff, hscope]

theorem runs_point_iff {fileUri : Value} {x : Except ServiceError (List Record)} :
    (Service.execute "UPDATE users SET resume_uri = $1 WHERE id = $2::uuid"
        [fileUri, .text user]).run.Runs e s x s' ↔
      (∃ owner, castUuid (.text user) = .ok owner ∧ x = .ok [] ∧
        s' = s.set "users" ((s.db.rows "users").map fun a =>
          if a.column "id" = owner then a.insert "resume_uri" fileUri else a)) ∨
        ∃ err, castUuid (.text user) = .error err ∧ x = .error (.database err) ∧ s' = s := by
  let q := Query.update "users" [("resume_uri", .parameter 0 none)]
    [.equals "id" (.parameter 1 (some "uuid"))] none
  have hread : read? "UPDATE users SET resume_uri = $1 WHERE id = $2::uuid" = some q :=
    (spells_ofList _).read? (by decide)
  have hrun : q.run e [fileUri, .text user] s.db = (castUuid (.text user)).map fun owner =>
      ([], s.db.set "users" ((s.db.rows "users").map fun a =>
        if a.column "id" = owner then a.insert "resume_uri" fileUri else a)) := by
    rw [run_update_eq rfl, bindAll_singleton, bind_equals_uuid rfl]
    cases castUuid (.text user) with
    | error err => rfl
    | ok owner => simp [Except.map, answerRows, change]
  exact runs_execute_map_iff hread hrun

theorem runs_pointProfile_iff {fileUri : Value} {x : Except ServiceError Unit} :
    (pointProfile user fileUri).run.Runs e s x s' ↔
      (∃ owner, castUuid (.text user) = .ok owner ∧ x = .ok () ∧
        s' = s.set "users" ((s.db.rows "users").map fun a =>
          if a.column "id" = owner then a.insert "resume_uri" fileUri else a)) ∨
        ∃ err, castUuid (.text user) = .error err ∧ x = .error (.database err) ∧ s' = s := by
  rw [pointProfile, runs_andThen_iff]
  simp only [runs_point_iff, runs_pure_iff]
  constructor
  · rintro (⟨_, _, ⟨owner, howner, -, rfl⟩ | ⟨_, _, herr, _⟩, rfl, rfl⟩ | ⟨_, ⟨_, _, hok, _⟩ | ⟨err, herr, hx, rfl⟩, rfl⟩)
    · exact .inl ⟨owner, howner, rfl, rfl⟩
    · cases herr
    · cases hok
    · cases hx
      exact .inr ⟨err, herr, rfl, rfl⟩
  · rintro (⟨owner, howner, rfl, rfl⟩ | ⟨err, herr, rfl, rfl⟩)
    · exact .inl ⟨[], _, .inl ⟨owner, howner, rfl, rfl⟩, rfl, rfl⟩
    · exact .inr ⟨_, .inr ⟨err, herr, rfl, rfl⟩, rfl⟩

theorem runs_pointProfile_of_cast {owner : Value} (howner : castUuid (.text user) = .ok owner)
    {fileUri : Value} {x : Except ServiceError Unit} :
    (pointProfile user fileUri).run.Runs e s x s' ↔
      x = .ok () ∧ s' = s.set "users" ((s.db.rows "users").map fun a =>
        if a.column "id" = owner then a.insert "resume_uri" fileUri else a) := by
  simp [runs_pointProfile_iff, howner]

def addition : Query :=
  .insert "resumes" ["id", "user_id", "name", "file_name", "file_uri", "is_primary"]
    [.parameter 0 (some "uuid"), .parameter 1 (some "uuid"), .parameter 2 none, .parameter 3 none,
      .parameter 4 none, .parameter 5 none] false (some .all)

theorem read?_addition :
    read? ("INSERT INTO resumes (id, user_id, name, file_name, file_uri, is_primary) "
      ++ "VALUES ($1::uuid, $2::uuid, $3, $4, $5, $6) " ++ "RETURNING *") = some addition :=
  (((spells_ofList _).append (spells_ofList _)).append (spells_ofList _)).read? (by decide)

theorem run_addition {given owner name file uri primary : Value} {db db' : Database} {rows : List Record}
    (hrun : addition.run e [given, owner, name, file, uri, primary] db = .ok (rows, db')) :
    ∃ row : Record, castUuid given = .ok (row.column "id") ∧ row.column "file_uri" = uri ∧
      db' = db.set "resumes" (db.rows "resumes" ++ [row]) := by
  obtain ⟨fs, hfs, ⟨hskip, -⟩ | ⟨rfl, -⟩⟩ := run_insert hrun
  · cases hskip
  refine ⟨_, ?_, ?_, rfl⟩
  · show castTo e given (some "uuid") = _
    exact column_newRow_parameter hfs rfl rfl
  · apply Eq.symm
    apply Except.ok.inj
    show castTo e uri none = _
    exact column_newRow_parameter hfs rfl rfl

theorem runs_add_iff {given new : Value} (hnew : castUuid given = .ok new) {draft : Draft}
    {x : Except ServiceError (List Record)} :
    (Service.execute
        ("INSERT INTO resumes (id, user_id, name, file_name, file_uri, is_primary) "
         ++ "VALUES ($1::uuid, $2::uuid, $3, $4, $5, $6) "
         ++ "RETURNING *")
        [given, .text user, .text draft.name, .text draft.fileName, .text draft.fileUri,
          .bool draft.primary]).run.Runs e s x s' ↔
      (∃ owner, castUuid (.text user) = .ok owner ∧ x = .ok [newResume e new owner draft] ∧
        s' = s.set "resumes" (s.db.rows "resumes" ++ [newResume e new owner draft])) ∨
        ∃ err, castUuid (.text user) = .error err ∧ x = .error (.database err) ∧ s' = s := by
  have hrun : addition.run e [given, .text user, .text draft.name, .text draft.fileName, .text draft.fileUri,
      .bool draft.primary] s.db = (castUuid (.text user)).map fun owner =>
        ([newResume e new owner draft],
          s.db.set "resumes" (s.db.rows "resumes" ++ [newResume e new owner draft])) := by
    cases howner : castUuid (.text user) with
    | error err =>
      simp [addition, Query.run, Operand.bind, argument, castTo, hnew, howner, Except.map, bind, Except.bind]
    | ok owner =>
      simp [addition, Query.run, Operand.bind, argument, castTo, hnew, howner, Except.map, bind, Except.bind, pure,
        Except.pure, answerRows, Columns.pick, newResume]
  exact runs_execute_map_iff read?_addition hrun

/-! ## Statements on one row of its owner -/

section Owned

variable {sql missing : String} {q : Query} {g : Value × Value → List Record × Database}

theorem runs_owned (hread : read? sql = some q)
    (hrun : q.run e [.text id, .text user] s.db = (castScope id user).map g) {x : Except ServiceError Record}
    (h : (Service.owned sql id user missing).run.Runs e s x s') :
    (∃ scope row, castScope id user = .ok scope ∧ (g scope).1.head? = some row ∧ x = .ok row ∧
        s' = { s with db := (g scope).2 }) ∨
      ∃ err, x = .error err ∧
        (s' = s ∨ ∃ scope, castScope id user = .ok scope ∧ s' = { s with db := (g scope).2 }) := by
  unfold Service.owned at h
  split at h
  · rcases runs_andThen_iff.mp h with ⟨rows, s₁, hexecute, hfirst⟩ | ⟨err, hexecute, rfl⟩
    · rcases (runs_execute_map_iff hread hrun).mp hexecute with ⟨scope, hscope, hrows, rfl⟩ | ⟨_, _, herr, _⟩
      · cases hrows
        rcases runs_first_iff.mp hfirst with ⟨rfl, ⟨row, hrow, rfl⟩ | ⟨-, rfl⟩⟩
        · exact .inl ⟨scope, row, hscope, hrow, rfl, rfl⟩
        · exact .inr ⟨_, rfl, .inr ⟨scope, hscope, rfl⟩⟩
      · cases herr
    · rcases (runs_execute_map_iff hread hrun).mp hexecute with ⟨_, _, hok, _⟩ | ⟨_, -, -, rfl⟩
      · cases hok
      · exact .inr ⟨err, rfl, .inl rfl⟩
  · obtain ⟨rfl, rfl⟩ := runs_throw_iff.mp h
    exact .inr ⟨_, rfl, .inl rfl⟩

theorem Runs.owned (hread : read? sql = some q)
    (hrun : q.run e [.text id, .text user] s.db = (castScope id user).map g) {scope : Value × Value}
    (hscope : castScope id user = .ok scope) {row : Record} (hrow : (g scope).1.head? = some row) :
    (Service.owned sql id user missing).run.Runs e s (.ok row) { s with db := (g scope).2 } := by
  have hid := isUuid_of_castUuid (castScope_eq_ok_iff.mp hscope).1
  rw [Service.owned, if_pos hid]
  exact Runs.andThen ((runs_execute_map_iff hread hrun).mpr (.inl ⟨scope, hscope, rfl, rfl⟩))
    (runs_first_iff.mpr ⟨rfl, .inl ⟨row, hrow, rfl⟩⟩)

end Owned

/-- The rows of a table with an id and its owner. -/
theorem run_own (table : String) (columns : List String) (db : Database) :
    (Query.select (.these columns) table none (rowConditions 0) []).run e [.text id, .text user] db
      = (castScope id user).map fun scope =>
        ((e.arrange [] ((db.rows table).filter fun r => IsRow scope.1 scope.2 r)).map fun r =>
          (Columns.these columns).pick r, db) := by
  rw [run_select_eq, bindAll_rowConditions_alone]
  cases castScope id user <;> rfl

def foundRows (e : Engine) (scope : Value × Value) (db : Database) : List Record :=
  (e.arrange [] ((db.rows "resumes").filter fun r => IsRow scope.1 scope.2 r)).map fun r =>
    (Columns.these ["id", "file_uri"]).pick r

theorem mem_foundRows {scope : Value × Value} {db : Database} {row : Record}
    (h : row ∈ foundRows e scope db) :
    ∃ r ∈ db.rows "resumes", IsRow scope.1 scope.2 r ∧ row.column "file_uri" = r.column "file_uri" := by
  obtain ⟨r, hr, rfl⟩ := List.mem_map.mp h
  obtain ⟨hmem, hrow⟩ := List.mem_filter.mp ((e.arrange_perm _ _).mem_iff.mp hr)
  exact ⟨r, hmem, of_decide_eq_true hrow, Record.column_map _ _ (by simp)⟩

theorem read?_existing :
    read? "SELECT id, file_uri FROM resumes WHERE id = $1::uuid AND user_id = $2::uuid"
      = some (.select (.these ["id", "file_uri"]) "resumes" none (rowConditions 0) []) :=
  (spells_ofList _).read? (by decide)

theorem run_existing (db : Database) :
    (Query.select (.these ["id", "file_uri"]) "resumes" none (rowConditions 0) []).run e
        [.text id, .text user] db
      = (castScope id user).map fun scope => (foundRows e scope db, db) := run_own "resumes" _ db

theorem read?_delete :
    read? "DELETE FROM resumes WHERE id = $1::uuid AND user_id = $2::uuid RETURNING id"
      = some (.delete "resumes" (rowConditions 0) (some (.these ["id"]))) :=
  (spells_ofList _).read? (by decide)

theorem run_delete_row (db : Database) :
    (Query.delete "resumes" (rowConditions 0) (some (.these ["id"]))).run e [.text id, .text user] db
      = (castScope id user).map fun scope =>
        (((db.rows "resumes").filter fun r => IsRow scope.1 scope.2 r).map fun r =>
            (Columns.these ["id"]).pick r,
          db.set "resumes" ((db.rows "resumes").filter fun r => ¬ IsRow scope.1 scope.2 r)) := by
  rw [run_delete_eq, bindAll_rowConditions_alone]
  cases castScope id user with
  | error err => rfl
  | ok scope => simp [Except.map, answerRows]

/-! ## The statement of a patch -/

def assigned (e : Engine) (patch : Value) : Except DatabaseError (List (String × (Record → Value))) :=
  (patchedFields fields patch).mapM fun entry =>
    (castTo e entry.2 (updateTemplate.casts.lookup entry.1)).map fun w => (entry.1, fun _ => w)

theorem castBoolean_toSnake (v : Value) : castBoolean v.toSnake = castBoolean v := by cases v <;> rfl

section Assigned

variable {patch : Value} {sets : List (String × (Record → Value))} {key : String} {v : Value}

theorem map_fst_assigned (h : assigned e patch = .ok sets) :
    sets.map (·.1) = (patchedFields fields patch).map (·.1) := by
  have hsets := (updateTemplate.bindSets_sets e (patchedFields fields patch) []).trans h
  rw [bindSets_columns hsets, UpdateTemplate.map_fst_sets]

theorem column_assigned (h : assigned e patch = .ok sets) {c : String} (hc : c ∉ fields) (r : Record) :
    (change sets r).column c = r.column c := by
  refine column_change sets r ?_
  intro set hset he
  have hmem : c ∈ sets.map (·.1) := he ▸ List.mem_map_of_mem hset
  rw [map_fst_assigned h] at hmem
  exact hc ((patchedFields_sublist fields patch).subset hmem)

/-- The flag gets the value of its last spelling, as a truth value. -/
theorem primary_assigned (h : assigned e patch = .ok sets)
    (hlast : patch.lastSpelled? "is_primary" = some (key, v)) (r : Record) :
    castBoolean v = .ok ((change sets r).column "is_primary") := by
  have hmem : ("is_primary", v.toSnake) ∈ patchedFields fields patch :=
    mem_patchedFields_iff.mpr ⟨by decide, key, v, hlast, rfl⟩
  obtain ⟨set, hset, hbind⟩ := exists_of_mapM_eq_ok h hmem
  obtain ⟨w, hw, rfl⟩ := map_eq_ok.mp hbind
  have hnodup : (sets.map (·.1)).Nodup := by
    rw [map_fst_assigned h]
    exact (patchedFields_sublist fields patch).nodup (by decide)
  rw [column_change_of_mem hnodup hset r, ← castBoolean_toSnake]
  exact hw

theorem primary_unassigned (h : assigned e patch = .ok sets)
    (hlast : patch.lastSpelled? "is_primary" = none) (r : Record) :
    (change sets r).column "is_primary" = r.column "is_primary" := by
  refine column_change sets r ?_
  intro set hset he
  have hmem : "is_primary" ∈ sets.map (·.1) := he ▸ List.mem_map_of_mem hset
  rw [map_fst_assigned h] at hmem
  obtain ⟨⟨field, w⟩, hentry, rfl⟩ := List.mem_map.mp hmem
  obtain ⟨-, key, v, hfound, -⟩ := mem_patchedFields_iff.mp hentry
  cases hlast.symm.trans hfound

theorem exists_assigned (e : Engine) (patch : Value)
    (h : ∀ key v, patch.lastSpelled? "is_primary" = some (key, v) → ∃ w, castBoolean v = .ok w) :
    ∃ sets, assigned e patch = .ok sets := by
  refine exists_mapM_eq_ok ?_
  rintro ⟨field, v⟩ hentry
  obtain ⟨hfield, key, w, hlast, rfl⟩ := mem_patchedFields_iff.mp hentry
  have hcases : field = "name" ∨ field = "is_primary" := by simpa [fields] using hfield
  rcases hcases with rfl | rfl
  · exact ⟨_, rfl⟩
  · obtain ⟨b, hb⟩ := h key w hlast
    refine ⟨("is_primary", fun _ => b), map_eq_ok.mpr ⟨b, ?_, rfl⟩⟩
    rw [← castBoolean_toSnake] at hb
    exact hb

def castPatch (e : Engine) (id user : String) (patch : Value) :
    Except DatabaseError (List (String × (Record → Value)) × (Value × Value)) := do
  let sets ← assigned e patch
  let scope ← castScope id user
  return (sets, scope)

theorem castPatch_eq_ok_iff {scope : Value × Value} :
    castPatch e id user patch = .ok (sets, scope) ↔
      assigned e patch = .ok sets ∧ castScope id user = .ok scope := by
  rw [castPatch]
  cases assigned e patch <;> cases castScope id user <;> simp [bind, Except.bind, pure, Except.pure]

theorem runs_patch_iff {statement : Statement}
    (hs : updateTemplate.compile [.text id, .text user] patch = .ok statement)
    {x : Except ServiceError (List Record)} :
    (Service.execute statement.sql statement.params).run.Runs e s x s' ↔
      (∃ bound, castPatch e id user patch = .ok bound ∧
        x = .ok (((s.db.rows "resumes").filter fun r => IsRow bound.2.1 bound.2.2 r).map (change bound.1)) ∧
        s' = s.set "resumes" ((s.db.rows "resumes").map fun r =>
          if IsRow bound.2.1 bound.2.2 r then change bound.1 r else r)) ∨
        ∃ err, castPatch e id user patch = .error err ∧ x = .error (.database err) ∧ s' = s := by
  have hreadable : updateTemplate.Readable .all := Patchable.readable .resume
  obtain ⟨hread, hparams, -⟩ := UpdateTemplate.read?_compile hreadable hs
  rw [show updateTemplate.allow = fields from rfl] at hread hparams
  have hsets := updateTemplate.bindSets_sets e (patchedFields fields patch) [.text id, .text user]
  have htest := bindAll_rowConditions e ((patchedFields fields patch).map (·.2)) id user
  rw [List.length_map] at htest
  have hconditions : (updateTemplate.conditions ((patchedFields fields patch).map (·.1)).length).map
      Equation.condition = rowConditions (patchedFields fields patch).length := by
    rw [List.length_map]
    rfl
  have hrun : (updateTemplate.query .all ((patchedFields fields patch).map (·.1))).run e statement.params s.db
      = (castPatch e id user patch).map fun bound =>
        (((s.db.rows "resumes").filter fun r => IsRow bound.2.1 bound.2.2 r).map (change bound.1),
          s.db.set "resumes" ((s.db.rows "resumes").map fun r =>
            if IsRow bound.2.1 bound.2.2 r then change bound.1 r else r)) := by
    have hassigned : bindSets e ((patchedFields fields patch).map (·.2) ++ [.text id, .text user])
        ((updateTemplate.sets ((patchedFields fields patch).map (·.1))).map Equation.assignment)
          = assigned e patch := hsets
    rw [UpdateTemplate.query, Query.run, hparams, hconditions, htest, castPatch]
    rw [hassigned]
    cases assigned e patch with
    | error err => rfl
    | ok sets =>
      cases castScope id user with
      | error err => rfl
      | ok scope =>
        simp only [Except.map, bind, Except.bind, pure, Except.pure, answerRows, Columns.pick, List.map_id',
          decide_eq_true_eq]
        rfl
  exact runs_execute_map_iff hread hrun

end Assigned

end JobTrail.Resume

namespace JobTrail.Tailored

theorem readable : updateTemplate.Readable .all :=
  ⟨by decide, by decide, by decide, by decide, by decide, by decide⟩

end JobTrail.Tailored
