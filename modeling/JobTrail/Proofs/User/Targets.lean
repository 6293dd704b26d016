import JobTrail.Proofs.Sql.Laws
import JobTrail.Proofs.Storage.Faults
import JobTrail.Proofs.Tenancy.Ownership
import JobTrail.User.Endpoints

/-!
# Target lists

How far the replacement of target lists comes if a statement fails. The lists are replaced one after the
other and nothing is undone, so the lists before the one that it stops in are replaced, the lists after it
are as they were, and that one is as it was only if its old rows were not yet deleted. The lists of other
users are never touched.
-/

namespace JobTrail.User

open Sql Storage

variable {e : Engine} {id value : String} {values : List String} {t : TargetTable} {db db' : Database}
  {s s' : Storage} {script : List Exchange} {err : ServiceError} {rows : List Record}

def TargetTable.all : List TargetTable := [companyTargets, roleTargets, industryTargets, locationTargets]

/-- The lists in the order in which they are replaced. -/
def Targets.lists (targets : Targets) : List (TargetTable × Option (List String)) :=
  [(companyTargets, targets.companies), (roleTargets, targets.roles),
    (industryTargets, targets.industries), (locationTargets, targets.locations)]

theorem replaceTargets_eq (id : String) (targets : Targets) :
    replaceTargets id targets = targets.lists.forM fun l => replaceList id l.1 l.2 := by
  simp only [replaceTargets, Targets.lists, List.forM_eq_forM, List.forM_cons, List.forM_nil,
    bind_pure_unit]

theorem lists_known (targets : Targets) : ∀ l ∈ targets.lists, l.1 ∈ TargetTable.all := by
  simp [Targets.lists, TargetTable.all]

theorem lists_nodup (targets : Targets) : (targets.lists.map (·.1.table)).Nodup := by
  simp [Targets.lists, companyTargets, roleTargets, industryTargets, locationTargets]

/-! ## Statements -/

namespace TargetTable

/-- What a value is cast to. -/
def type? (t : TargetTable) : Option String := if t.cast = "" then none else some "uuid"

def clear (t : TargetTable) (id : String) : Statement :=
  ⟨"DELETE FROM " ++ t.table ++ " WHERE user_id = $1::uuid", [.text id]⟩

def add (t : TargetTable) (id value : String) : Statement :=
  ⟨"INSERT INTO " ++ t.table ++ " (user_id, " ++ t.column ++ ") VALUES ($1::uuid, $2" ++ t.cast
    ++ ") ON CONFLICT DO NOTHING", [.text id, .text value]⟩

def clearQuery (t : TargetTable) : Query := .delete t.table [.equals "user_id" (.parameter 0 (some "uuid"))] none

def addQuery (t : TargetTable) : Query :=
  .insert t.table ["user_id", t.column] [.parameter 0 (some "uuid"), .parameter 1 t.type?] true none

theorem read?_clear (h : t ∈ all) (id : String) : read? (t.clear id).sql = some t.clearQuery := by
  simp only [all, List.mem_cons, List.not_mem_nil, or_false] at h
  rcases h with rfl | rfl | rfl | rfl
  all_goals
    exact (((spells_ofList _).append (spells_ofList _)).append (spells_ofList _)).read? (by decide)

theorem read?_add (h : t ∈ all) (id value : String) : read? (t.add id value).sql = some t.addQuery := by
  simp only [all, List.mem_cons, List.not_mem_nil, or_false] at h
  rcases h with rfl | rfl | rfl | rfl
  all_goals
    exact (((((((spells_ofList _).append (spells_ofList _)).append (spells_ofList _)).append
      (spells_ofList _)).append (spells_ofList _)).append (spells_ofList _)).append (spells_ofList _)).read?
        (by decide)

theorem column_ne (h : t ∈ all) : "user_id" ≠ t.column := by
  simp only [all, List.mem_cons, List.not_mem_nil, or_false] at h
  rcases h with rfl | rfl | rfl | rfl <;> decide

end TargetTable

/-! ## Lists of one user -/

/-- The values of a user in a table, row by row. -/
def targetList (id : String) (t : TargetTable) (db : Database) : List Value :=
  ((db.rows t.table).filter fun r => Tenancy.Belongs id r).map fun r => r.column t.column

/-- A list holds the given values, as its column stores them and each of them once. -/
def Holds (e : Engine) (id : String) (t : TargetTable) (values : List String) (db : Database) : Prop :=
  ∃ stored, values.mapM (fun value => castTo e (.text value) t.type?) = .ok stored ∧
    (targetList id t db).Nodup ∧ ∀ v, v ∈ targetList id t db ↔ v ∈ stored

theorem Holds.congr (hrows : db'.rows t.table = db.rows t.table) (h : Holds e id t values db) :
    Holds e id t values db' := by
  simpa only [Holds, targetList, hrows] using h

/-- No table but one is changed. -/
def Touches (t : TargetTable) (db db' : Database) : Prop := ∀ table ≠ t.table, db'.rows table = db.rows table

theorem Touches.refl (t : TargetTable) (db : Database) : Touches t db db := fun _ _ => rfl

theorem Touches.trans {db'' : Database} (h : Touches t db db') (h' : Touches t db' db'') :
    Touches t db db'' := fun table hne => (h' table hne).trans (h table hne)

theorem touches_set (t : TargetTable) (db : Database) (rows : List Record) :
    Touches t db (db.set t.table rows) := fun table hne => by rw [Sql.rows_set, if_neg hne]

theorem run_clearQuery :
    t.clearQuery.run e [.text id] db = (castUuid (.text id)).map fun _ =>
      ([], db.set t.table ((db.rows t.table).filter fun r => !decide (Tenancy.Belongs id r))) := by
  have htest : bindAll e [.text id] [.equals "user_id" (.parameter 0 (some "uuid"))] =
      (castUuid (.text id)).map fun _ r => decide (Tenancy.Belongs id r) := bindAll_uuid e "user_id" id []
  rw [TargetTable.clearQuery, Query.run, htest]
  cases castUuid (.text id) <;> rfl

theorem run_clear (hrun : t.clearQuery.run e [.text id] db = .ok (rows, db')) :
    Touches t db db' ∧ Holds e id t [] db' := by
  rw [run_clearQuery] at hrun
  obtain ⟨-, -, hrun⟩ := map_eq_ok.mp hrun
  cases hrun
  have hnone : targetList id t (db.set t.table ((db.rows t.table).filter
      fun r => !decide (Tenancy.Belongs id r))) = [] := by
    simp [targetList, Sql.rows_set]
  refine ⟨touches_set t db _, [], rfl, ?_⟩
  simp [hnone]

theorem run_addQuery :
    t.addQuery.run e [.text id, .text value] db = do
      let owner ← castUuid (.text id)
      let v ← castTo e (.text value) t.type?
      if (db.rows t.table).any fun r => ["user_id", t.column].map r.column = [owner, v] then
        return ([], db)
      return ([], db.set t.table (db.rows t.table ++ [newRow e t.table ["user_id", t.column] [owner, v]])) := by
  have hfirst : argument e [.text id, .text value] 0 (some "uuid") = castUuid (.text id) := rfl
  have hsecond : argument e [.text id, .text value] 1 t.type? = castTo e (.text value) t.type? := rfl
  cases howner : castUuid (.text id) with
  | error err =>
    simp [TargetTable.addQuery, Query.run, Operand.bind, hfirst, howner, Except.map, bind, Except.bind]
  | ok owner =>
    cases hvalue : castTo e (.text value) t.type? with
    | error err =>
      simp [TargetTable.addQuery, Query.run, Operand.bind, hfirst, howner, hsecond, hvalue, Except.map,
        bind, Except.bind]
    | ok v =>
      simp [TargetTable.addQuery, Query.run, Operand.bind, hfirst, howner, hsecond, hvalue, Except.map,
        bind, Except.bind, pure, Except.pure, answerRows]

/-- A value that is in the list already is passed over, and any other becomes a new row. -/
theorem run_add_cases (ht : t ∈ TargetTable.all)
    (hrun : t.addQuery.run e [.text id, .text value] db = .ok (rows, db')) :
    ∃ v, castTo e (.text value) t.type? = .ok v ∧
      (v ∈ targetList id t db ∧ db' = db ∨
        v ∉ targetList id t db ∧ ∃ row : Record, Tenancy.Belongs id row ∧ row.column t.column = v ∧
          db' = db.set t.table (db.rows t.table ++ [row])) := by
  rw [run_addQuery] at hrun
  obtain ⟨owner, howner, hrun⟩ := bind_eq_ok.mp hrun
  obtain ⟨v, hv, hrun⟩ := bind_eq_ok.mp hrun
  have hpresent : v ∈ targetList id t db ↔
      (db.rows t.table).any (fun r => ["user_id", t.column].map r.column = [owner, v]) := by
    simp only [targetList, List.mem_map, List.mem_filter, decide_eq_true_eq, Tenancy.Belongs, howner,
      Except.ok.injEq, List.any_eq_true, List.map_cons, List.map_nil, List.cons.injEq, and_true, and_assoc,
      @eq_comm _ owner]
  refine ⟨v, hv, ?_⟩
  split at hrun
  · rename_i hany
    cases hrun
    exact .inl ⟨hpresent.mpr hany, rfl⟩
  · rename_i hnone
    cases hrun
    refine .inr ⟨fun hmem => hnone (hpresent.mp hmem), _, ?_, ?_, rfl⟩
    · rw [Tenancy.Belongs, howner]
      simp [newRow, Record.column_cons]
    · simp [newRow, Record.column_cons, TargetTable.column_ne ht]

theorem run_add (ht : t ∈ TargetTable.all)
    (hrun : t.addQuery.run e [.text id, .text value] db = .ok (rows, db')) (h : Holds e id t values db) :
    Touches t db db' ∧ Holds e id t (values ++ [value]) db' := by
  obtain ⟨stored, hstored, hnodup, hmem⟩ := h
  obtain ⟨v, hv, hcases⟩ := run_add_cases ht hrun
  have hstored' : (values ++ [value]).mapM (fun value => castTo e (.text value) t.type?)
      = .ok (stored ++ [v]) := by
    rw [List.mapM_append, hstored, List.mapM_cons, hv]
    rfl
  rcases hcases with ⟨hpresent, rfl⟩ | ⟨hnew, row, hbelongs, hvalue, rfl⟩
  · refine ⟨.refl t db', stored ++ [v], hstored', hnodup, ?_⟩
    intro w
    rw [hmem, List.mem_append, List.mem_singleton]
    constructor
    · exact .inl
    · rintro (hw | rfl)
      · exact hw
      · exact (hmem w).mp hpresent
  · have hlist : targetList id t (db.set t.table (db.rows t.table ++ [row])) = targetList id t db ++ [v] := by
      simp [targetList, Sql.rows_set, hbelongs, hvalue]
    refine ⟨touches_set t db _, stored ++ [v], hstored', ?_, ?_⟩
    · rw [hlist, ← List.concat_eq_append]
      exact hnodup.concat hnew
    · intro w
      rw [hlist, List.mem_append, List.mem_append, hmem]

/-! ## Where the replacement stops -/

/-- The last thing asked was a statement, and it failed. -/
def FailsAt (script : List Exchange) (failed : Statement) (err : DatabaseError) : Prop :=
  script.getLast? = some ⟨.execute failed, .error err⟩

theorem FailsAt.after {failed : Statement} {err : DatabaseError} (h : FailsAt script failed err)
    (before : List Exchange) : FailsAt (before ++ script) failed err := by
  rw [FailsAt, List.getLast?_append, h]
  rfl

theorem follows_add (ht : t ∈ TargetTable.all) {x : Except ServiceError Unit}
    (hplays : (do let _ ← Service.execute (t.add id value).sql (t.add id value).params).run.Plays script x)
    (hfollows : Follows e s script s') (h : Holds e id t values s.db) :
    (x = .ok () ∧ Touches t s.db s'.db ∧ Holds e id t (values ++ [value]) s'.db) ∨
      ∃ failure, x = .error (.database failure) ∧ FailsAt script (t.add id value) failure ∧ s' = s := by
  have hread := TargetTable.read?_add ht id value
  rcases Task.plays_andThen_iff.mp hplays with ⟨first, rest, rows, rfl, hadd, hpure⟩ | ⟨err, hadd, rfl⟩
  · obtain ⟨rfl, rfl⟩ := Task.plays_done_iff.mp hpure
    rw [List.append_nil] at hfollows
    rcases follows_execute hread hadd hfollows with ⟨rows, db', -, hrun, rfl⟩ | ⟨failure, hx, -, -⟩
    · exact .inl ⟨rfl, run_add ht hrun h⟩
    · cases hx
  · rcases follows_execute hread hadd hfollows with ⟨rows, db', hx, -, -⟩ | ⟨failure, hx, rfl, rfl⟩
    · cases hx
    · cases hx
      exact .inr ⟨failure, rfl, rfl, rfl⟩

/-- New values are added one by one up to the one that fails. -/
theorem follows_adds (ht : t ∈ TargetTable.all) {rest : List String} {x : Except ServiceError Unit}
    (hplays : (rest.forM fun value => do
      let _ ← Service.execute (t.add id value).sql (t.add id value).params).run.Plays script x)
    (hfollows : Follows e s script s') (h : Holds e id t values s.db) :
    Touches t s.db s'.db ∧
      ((x = .ok () ∧ Holds e id t (values ++ rest) s'.db) ∨
        ∃ done value more failure, rest = done ++ value :: more ∧ Holds e id t (values ++ done) s'.db ∧
          FailsAt script (t.add id value) failure ∧ x = .error (.database failure)) := by
  induction rest generalizing s values script with
  | nil =>
    obtain ⟨rfl, rfl⟩ := Task.plays_done_iff.mp hplays
    cases hfollows
    rw [List.append_nil]
    exact ⟨.refl t _, .inl ⟨rfl, h⟩⟩
  | cons value rest ih =>
    rcases Task.plays_andThen_iff.mp hplays with ⟨first, last, ⟨⟩, rfl, hadd, hrest⟩ | ⟨err, hadd, rfl⟩
    · obtain ⟨s₁, hfirst, hlast⟩ := follows_append_iff.mp hfollows
      rcases follows_add ht hadd hfirst h with ⟨-, htouches, h⟩ | ⟨failure, hx, -, -⟩
      · obtain ⟨htouches', hend⟩ := ih hrest hlast h
        rw [List.append_assoc, List.singleton_append] at hend
        refine ⟨htouches.trans htouches', ?_⟩
        rcases hend with hdone | ⟨done, failed, more, failure, rfl, h, hfails, rfl⟩
        · exact .inl hdone
        · rw [List.append_assoc, List.singleton_append] at h
          exact .inr ⟨value :: done, failed, more, failure, rfl, h, hfails.after first, rfl⟩
      · cases hx
    · rcases follows_add ht hadd hfollows h with ⟨hx, -, -⟩ | ⟨failure, hx, hfails, rfl⟩
      · cases hx
      · rw [hx]
        exact ⟨.refl t s'.db, .inr ⟨[], value, rest, failure, rfl, by simpa using h, hfails, rfl⟩⟩

/-- A list is as it was asked for. -/
def Replaced (e : Engine) (id : String) (t : TargetTable) (list : Option (List String)) (db db' : Database) :
    Prop :=
  match list with
  | none => db'.rows t.table = db.rows t.table
  | some values => Holds e id t values db'

/-- Replacing a list has stopped: the list was not yet touched, or it has the values in front of the
one that could not be added. -/
inductive Stopped (e : Engine) (id : String) (t : TargetTable) (values : List String) (db db' : Database) :
    Statement → Prop where
  | uncleared : db'.rows t.table = db.rows t.table → Stopped e id t values db db' (t.clear id)
  | unfinished {done : List String} {value : String} {more : List String} :
      values = done ++ value :: more → Holds e id t done db' → Stopped e id t values db db' (t.add id value)

theorem Replaced.congr {db₁ db₁' : Database} {list : Option (List String)}
    (hbefore : db₁.rows t.table = db.rows t.table) (hafter : db₁'.rows t.table = db'.rows t.table)
    (h : Replaced e id t list db db') : Replaced e id t list db₁ db₁' := by
  cases list with
  | none => exact hafter.trans (h.trans hbefore.symm)
  | some values => exact Holds.congr hafter h

theorem Stopped.congr {db₁ : Database} {failed : Statement} (hbefore : db₁.rows t.table = db.rows t.table)
    (h : Stopped e id t values db db' failed) : Stopped e id t values db₁ db' failed := by
  cases h with
  | uncleared hsame => exact .uncleared (hsame.trans hbefore.symm)
  | unfinished hvalues h => exact .unfinished hvalues h

theorem follows_replaceList (ht : t ∈ TargetTable.all) {list : Option (List String)}
    {x : Except ServiceError Unit} (hplays : (replaceList id t list).run.Plays script x)
    (hfollows : Follows e s script s') :
    Touches t s.db s'.db ∧
      ((x = .ok () ∧ Replaced e id t list s.db s'.db) ∨
        ∃ values failed failure, list = some values ∧ Stopped e id t values s.db s'.db failed ∧
          FailsAt script failed failure ∧ x = .error (.database failure)) := by
  cases list with
  | none =>
    obtain ⟨rfl, rfl⟩ := Task.plays_done_iff.mp hplays
    cases hfollows
    exact ⟨.refl t _, .inl ⟨rfl, rfl⟩⟩
  | some values =>
    have hread := TargetTable.read?_clear ht id
    rcases Task.plays_andThen_iff.mp hplays with ⟨first, rest, rows, rfl, hclear, hadds⟩ | ⟨err, hclear, rfl⟩
    · obtain ⟨s₁, hfirst, hrest⟩ := follows_append_iff.mp hfollows
      rcases follows_execute hread hclear hfirst with ⟨rows, db', -, hrun, rfl⟩ | ⟨failure, hx, -, -⟩
      · obtain ⟨htouches, hempty⟩ := run_clear hrun
        obtain ⟨htouches', hend⟩ := follows_adds ht hadds hrest hempty
        refine ⟨htouches.trans htouches', ?_⟩
        rcases hend with ⟨rfl, h⟩ | ⟨done, value, more, failure, rfl, h, hfails, rfl⟩
        · exact .inl ⟨rfl, h⟩
        · exact .inr ⟨_, _, failure, rfl, .unfinished rfl h, hfails.after first, rfl⟩
      · cases hx
    · rcases follows_execute hread hclear hfollows with ⟨rows, db', hx, -, -⟩ | ⟨failure, hx, rfl, rfl⟩
      · cases hx
      · cases hx
        exact ⟨.refl t s'.db, .inr ⟨values, _, failure, rfl, .uncleared rfl, rfl, rfl⟩⟩

theorem follows_lists {lists : List (TargetTable × Option (List String))}
    (hknown : ∀ l ∈ lists, l.1 ∈ TargetTable.all) (hnodup : (lists.map (·.1.table)).Nodup)
    (hplays : (lists.forM fun l => replaceList id l.1 l.2).run.Plays script (.error err))
    (hfollows : Follows e s script s') :
    (∀ table ∉ lists.map (·.1.table), s'.db.rows table = s.db.rows table) ∧
      ∃ before t values after failed failure, lists = before ++ (t, some values) :: after ∧
        FailsAt script failed failure ∧ err = .database failure ∧
        (∀ l ∈ before, Replaced e id l.1 l.2 s.db s'.db) ∧ Stopped e id t values s.db s'.db failed ∧
        ∀ l ∈ after, s'.db.rows l.1.table = s.db.rows l.1.table := by
  induction lists generalizing s script with
  | nil => cases (Task.plays_done_iff.mp hplays).2
  | cons l rest ih =>
    obtain ⟨hl, hrest⟩ := List.forall_mem_cons.mp hknown
    obtain ⟨hnew, hnodup⟩ := List.nodup_cons.mp hnodup
    have hne : ∀ l' ∈ rest, l'.1.table ≠ l.1.table := by
      intro l' hl' he
      have hmem : l'.1.table ∈ rest.map (·.1.table) := List.mem_map_of_mem hl'
      rw [he] at hmem
      exact hnew hmem
    rcases Task.plays_andThen_iff.mp hplays with ⟨first, last, ⟨⟩, rfl, hone, hmore⟩ | ⟨err', hone, he⟩
    · obtain ⟨s₁, hfirst, hlast⟩ := follows_append_iff.mp hfollows
      obtain ⟨htouches, ⟨-, hreplaced⟩ | ⟨_, _, _, -, -, -, hx⟩⟩ := follows_replaceList hl hone hfirst
      · obtain ⟨hframe, before, t, values, after, failed, failure, rfl, hfails, rfl, hbefore, hstopped, hafter⟩ :=
          ih hrest hnodup hmore hlast
        refine ⟨?_, l :: before, t, values, after, failed, failure, rfl, hfails.after first, rfl, ?_, ?_, ?_⟩
        · intro table htable
          rw [List.map_cons, List.mem_cons, not_or] at htable
          exact (hframe table htable.2).trans (htouches table htable.1)
        · intro l' hl'
          rcases List.mem_cons.mp hl' with rfl | hl'
          · exact hreplaced.congr rfl (hframe _ hnew)
          · have hother := hne l' (List.mem_append_left _ hl')
            exact (hbefore l' hl').congr (htouches _ hother).symm rfl
        · have hother := hne _ (List.mem_append_right before List.mem_cons_self)
          exact hstopped.congr (htouches _ hother).symm
        · intro l' hl'
          have hother := hne l' (List.mem_append_right before (List.mem_cons_of_mem _ hl'))
          exact (hafter l' hl').trans (htouches _ hother)
      · cases hx
    · cases he
      obtain ⟨htouches, ⟨hx, -⟩ | ⟨values, failed, failure, hvalues, hstopped, hfails, hx⟩⟩ :=
        follows_replaceList hl hone hfollows
      · cases hx
      · cases hx
        refine ⟨?_, [], l.1, values, rest, failed, failure, ?_, hfails, rfl, by simp, hstopped, ?_⟩
        · intro table htable
          rw [List.map_cons, List.mem_cons, not_or] at htable
          exact htouches table htable.1
        · rw [List.nil_append, ← hvalues]
        · intro l' hl'
          exact htouches _ (hne l' hl')

/-- If a replacement fails, it stops in one list. The lists before it are as asked for and the lists after
it are as they were; it is as it was if its rows could not be deleted, and otherwise it has the values in
front of the one that could not be added. -/
theorem replaceTargets_stops {targets : Targets}
    (hplays : (replaceTargets id targets).run.Plays script (.error err)) (hfollows : Follows e s script s') :
    ∃ before t values after failed failure, targets.lists = before ++ (t, some values) :: after ∧
      FailsAt script failed failure ∧ err = .database failure ∧
      (∀ l ∈ before, Replaced e id l.1 l.2 s.db s'.db) ∧ Stopped e id t values s.db s'.db failed ∧
      ∀ l ∈ after, s'.db.rows l.1.table = s.db.rows l.1.table := by
  rw [replaceTargets_eq] at hplays
  exact (follows_lists (lists_known targets) (lists_nodup targets) hplays hfollows).2

/-! ## A list that is lost -/

/-- Storage in which one user aims for one company. -/
def aiming (user company : String) : Storage where
  db := Database.empty.set companyTargets.table [[("user_id", .text user), ("company_id", .text company)]]
  blobs := .new "/uploads"
  issued := []

def unknownCompany : Targets := ⟨some ["nowhere"], none, none, none⟩

def refusal (id : String) : List Exchange :=
  [⟨.execute (companyTargets.clear id), .ok []⟩,
    ⟨.execute (companyTargets.add id "nowhere"), .error .failed⟩]

theorem plays_refusal (id : String) :
    (replaceTargets id unknownCompany).run.Plays (refusal id) (.error (.database .failed)) :=
  .ask (.ask (.done _))

theorem follows_refusal (company : String) (hid : castUuid (.text id) = .ok (.text id)) :
    targetList id companyTargets (aiming id company).db = [.text company] ∧
      ∃ s', Follows .plain (aiming id company) (refusal id) s' ∧ targetList id companyTargets s'.db = [] := by
  have hrow : Tenancy.Belongs id [("user_id", .text id), ("company_id", .text company)] := hid
  have hbefore : targetList id companyTargets (aiming id company).db = [.text company] := by
    simp [targetList, aiming, Sql.rows_set, hrow]
    rfl
  have hall : companyTargets ∈ TargetTable.all := by simp [TargetTable.all]
  obtain ⟨db', hclear⟩ : ∃ db', companyTargets.clearQuery.run .plain [.text id] (aiming id company).db
      = .ok ([], db') := by
    rw [run_clearQuery, hid]
    exact ⟨_, rfl⟩
  have hrefused : companyTargets.addQuery.run .plain [.text id, .text "nowhere"] db' = .error .failed := by
    rw [run_addQuery, hid]
    rfl
  obtain ⟨-, stored, ⟨⟩, -, hmem⟩ := run_clear hclear
  have hempty : targetList id companyTargets db' = [] := by
    simpa [List.eq_nil_iff_forall_not_mem] using hmem
  refine ⟨hbefore, { aiming id company with db := db' }, ?_, hempty⟩
  have hserves := Serves.of_run (TargetTable.read?_clear hall id) hclear
  have hrefuses : Serves .plain { aiming id company with db := db' } _ _ _ :=
    .of_run_error (TargetTable.read?_add hall id "nowhere") hrefused
  exact .cons (.inl hserves) (.cons (.inl hrefuses) (.nil _))

/-- A replacement that could not add the one company that it was given. -/
theorem replaceTargets_stops_at_company :
    ∃ id s s', (replaceTargets id unknownCompany).run.Plays (refusal id) (.error (.database .failed)) ∧
      Follows .plain s (refusal id) s' ∧
      ∃ before t values after failed failure, unknownCompany.lists = before ++ (t, some values) :: after ∧
        FailsAt (refusal id) failed failure ∧ ServiceError.database .failed = .database failure ∧
        (∀ l ∈ before, Replaced .plain id l.1 l.2 s.db s'.db) ∧
        Stopped .plain id t values s.db s'.db failed ∧
        ∀ l ∈ after, s'.db.rows l.1.table = s.db.rows l.1.table := by
  let id := Uuid.print (List.replicate 32 1)
  have hid : castUuid (.text id) = .ok (.text id) := castUuid_print ⟨rfl, by decide⟩
  obtain ⟨-, s', hfollows, -⟩ := follows_refusal id hid
  exact ⟨id, _, s', plays_refusal id, hfollows, replaceTargets_stops (plays_refusal id) hfollows⟩

/-- A list of company ids that is accepted, and of which one is no id, replaces the old list by nothing. -/
theorem replaceTargets_loses_list :
    ¬ ∀ (e : Engine) (id : String) (body : Value) (targets : Targets) (script : List Exchange)
      (err : ServiceError) (s s' : Storage), targetsForm.run body = .ok targets →
      (replaceTargets id targets).run.Plays script (.error err) → Follows e s script s' →
        ∀ t ∈ TargetTable.all, targetList id t s'.db = targetList id t s.db := by
  intro law
  let id := Uuid.print (List.replicate 32 1)
  have hid : castUuid (.text id) = .ok (.text id) := castUuid_print ⟨rfl, by decide⟩
  have hbody : targetsForm.run (.record [("targetCompanies", .sequence [.text "nowhere"])])
      = .ok unknownCompany := by decide
  obtain ⟨hbefore, s', hfollows, hafter⟩ := follows_refusal id hid
  have hsame := law .plain id _ _ _ _ _ _ hbody (plays_refusal id) hfollows companyTargets
    (by simp [TargetTable.all])
  rw [hbefore, hafter] at hsame
  cases hsame

end JobTrail.User
