import JobTrail.Proofs.Gate.Checks
import JobTrail.Proofs.User.Targets

/-!
# Profiles after a replacement

A profile shows the lists of its user as the tables hold them. After a replacement that ran to its end
each list that was given holds the distinct values that were sent, and the rest of the profile is as it
was; so are the profiles of all other users, even if the replacement failed half-way.
-/

set_option maxRecDepth 8192

namespace JobTrail.User

open Sql Storage TargetTable

variable {e : Engine} {id : String} {t : TargetTable} {db db' : Database} {s s' : Storage} {targets : Targets}

/-! ## The names of the lists -/

/-- A list with its keys in a body and in a profile. -/
structure NamedList where
  field : String
  name : String
  table : TargetTable
  values : Option (List String)

def Targets.named (targets : Targets) : List NamedList :=
  [⟨"targetCompanies", "target_companies", companyTargets, targets.companies⟩,
    ⟨"targetRoles", "target_roles", roleTargets, targets.roles⟩,
    ⟨"targetIndustries", "target_industries", industryTargets, targets.industries⟩,
    ⟨"targetLocations", "target_locations", locationTargets, targets.locations⟩]

theorem lists_eq_named (targets : Targets) : targets.lists = targets.named.map fun l => (l.table, l.values) := rfl

theorem mem_lists {l : NamedList} (h : l ∈ targets.named) : (l.table, l.values) ∈ targets.lists := by
  rw [lists_eq_named]
  exact List.mem_map_of_mem h

theorem names_nodup (targets : Targets) : (targets.named.map (·.name)).Nodup := by
  simp [Targets.named]

/-- Every list of a body is read by its own key. -/
theorem optionalTexts_of_targetsForm {body : Value} (h : targetsForm.run body = .ok targets) :
    ∀ l ∈ targets.named, Rule.optionalTexts (body.get? l.field) = some l.values := by
  have hpasses := (targetsForm_tests.accepts_iff body).mp ⟨targets, h⟩
  simp only [targetsChecks, passes_cons_iff, Rule.Accepts, Option.isSome_iff_exists] at hpasses
  obtain ⟨⟨companies, hcompanies⟩, ⟨roles, hroles⟩, ⟨industries, hindustries⟩, ⟨locations, hlocations⟩, -⟩ := hpasses
  have hform : targetsForm body [] = (⟨companies, roles, industries, locations⟩, []) := by
    simp only [targetsForm, bind, pure, Form.check_of_eq_some hcompanies, Form.check_of_eq_some hroles,
      Form.check_of_eq_some hindustries, Form.check_of_eq_some hlocations]
  rw [Form.run, hform] at h
  cases h
  simp only [Targets.named, List.forall_mem_cons]
  exact ⟨hcompanies, hroles, hindustries, hlocations, by simp⟩

/-! ## Reading a profile -/

namespace TargetTable

/-- The order in which a profile shows a list. -/
def order (t : TargetTable) : List SortKey :=
  if t = companyTargets then [⟨"priority", true⟩, ⟨"added_at", false⟩] else []

def listQuery (t : TargetTable) : Query :=
  .select (.these [t.column]) t.table none [.equals "user_id" (.parameter 0 (some "uuid"))] t.order

theorem read?_companies :
    read? ("SELECT company_id FROM user_target_companies WHERE user_id = $1::uuid "
      ++ "ORDER BY priority DESC, added_at ASC") = some companyTargets.listQuery :=
  ((spells_ofList _).append (spells_ofList _)).read? (by decide)

theorem read?_roles :
    read? "SELECT role FROM user_target_roles WHERE user_id = $1::uuid" = some roleTargets.listQuery :=
  (spells_ofList _).read? (by decide)

theorem read?_industries :
    read? "SELECT industry FROM user_target_industries WHERE user_id = $1::uuid" = some industryTargets.listQuery :=
  (spells_ofList _).read? (by decide)

theorem read?_locations :
    read? "SELECT location FROM user_target_locations WHERE user_id = $1::uuid" = some locationTargets.listQuery :=
  (spells_ofList _).read? (by decide)

end TargetTable

/-- What a read of a list answers. -/
def listRows (e : Engine) (id : String) (t : TargetTable) (db : Database) : List Record :=
  (e.arrange t.order ((db.rows t.table).filter fun r => Tenancy.Belongs id r)).map
    fun r => Columns.pick r (.these [t.column])

/-- A list of a user as a profile shows it. -/
def shownList (e : Engine) (id : String) (t : TargetTable) (db : Database) : List Value :=
  (listRows e id t db).map (·.column t.column)

theorem shownList_perm (e : Engine) (id : String) (t : TargetTable) (db : Database) :
    (shownList e id t db).Perm (targetList id t db) := by
  have hcolumn : ∀ r : Record, (Columns.pick r (.these [t.column])).column t.column = r.column t.column := fun r =>
    Record.column_map [t.column] r.column (List.mem_singleton.mpr rfl)
  simp only [shownList, listRows, List.map_map, Function.comp_def, hcolumn]
  exact (e.arrange_perm _ _).map _

def profileNames : List String :=
  ["id", "name", "email", "linkedin_profile", "university", "major", "graduation_year", "resume_uri",
    "weekly_goal", "created_at", "updated_at"]

def accounts (e : Engine) (id : String) (db : Database) : List Record :=
  (e.arrange [] ((db.rows "users").filter fun r => Tenancy.IsAccount id r)).map
    fun r => Columns.pick r (.these profileNames)

def profile (e : Engine) (id : String) (db : Database) (account : Record) : Record :=
  (((account.insert "target_companies" (.sequence (shownList e id companyTargets db))).insert
    "target_roles" (.sequence (shownList e id roleTargets db))).insert
    "target_industries" (.sequence (shownList e id industryTargets db))).insert
    "target_locations" (.sequence (shownList e id locationTargets db))

/-- What a look at a profile answers. -/
def readProfile (e : Engine) (id : String) (db : Database) : Except ServiceError Record :=
  match castUuid (.text id), accounts e id db with
  | .error err, _ => .error (.database err)
  | .ok _, [] => .error (.notFound missing)
  | .ok _, account :: _ => .ok (profile e id db account)

theorem read?_accounts :
    read? ("SELECT " ++ profileColumns ++ " FROM users WHERE id = $1::uuid") =
      some (.select (.these profileNames) "users" none [.equals "id" (.parameter 0 (some "uuid"))] []) :=
  (((spells_ofList _).append ((spells_ofList _).append (spells_ofList _))).append (spells_ofList _)).read? (by decide)

theorem runs_accounts_iff {x : Except ServiceError (List Record)} :
    (Service.execute ("SELECT " ++ profileColumns ++ " FROM users WHERE id = $1::uuid") [.text id]).run.Runs e s x s'
      ↔ x = ((castUuid (.text id)).map fun _ => accounts e id s.db).mapError .database ∧ s' = s :=
  runs_read_iff read?_accounts (run_select_uuid (.these profileNames) [] "id" id)

theorem runs_list_iff {sql : String} (hread : read? sql = some t.listQuery) {x : Except ServiceError (List Record)} :
    (Service.execute sql [.text id]).run.Runs e s x s' ↔
      x = ((castUuid (.text id)).map fun _ => listRows e id t s.db).mapError .database ∧ s' = s :=
  runs_read_iff hread (run_select_uuid (.these [t.column]) t.order "user_id" id)

theorem runs_find_iff {x : Except ServiceError Record} :
    (find id).run.Runs e s x s' ↔ x = readProfile e id s.db ∧ s' = s := by
  have haccounts : ∀ y s₁, (Service.execute ("SELECT " ++ profileColumns ++ " FROM users WHERE id = $1::uuid")
      [.text id]).run.Runs e s y s₁ ↔ _ := fun _ _ => runs_accounts_iff
  unfold find readProfile
  cases hid : castUuid (.text id) with
  | error err =>
    rw [hid] at haccounts
    exact runs_andThen_error_iff haccounts
  | ok owner =>
    have hlist : ∀ {t : TargetTable} {sql : String}, read? sql = some t.listQuery → ∀ y s₁,
        (Service.execute sql [.text id]).run.Runs e s y s₁ ↔ y = .ok (listRows e id t s.db) ∧ s₁ = s := by
      intro t sql hread y s₁
      rw [runs_list_iff hread, hid]
      rfl
    rw [hid] at haccounts
    refine (runs_andThen_ok_iff haccounts).trans ?_
    cases accounts e id s.db with
    | nil => exact runs_andThen_error_iff fun y s₁ => runs_throw_iff
    | cons account others =>
      refine (runs_andThen_ok_iff (a := account) fun y s₁ => runs_pure_iff).trans ?_
      rw [runs_andThen_ok_iff (hlist read?_companies), runs_andThen_ok_iff (hlist read?_roles),
        runs_andThen_ok_iff (hlist read?_industries), runs_andThen_ok_iff (hlist read?_locations)]
      exact runs_pure_iff

theorem readProfile_congr (husers : db'.rows "users" = db.rows "users")
    (hlists : ∀ t ∈ all, (db'.rows t.table).filter (fun r => Tenancy.Belongs id r) =
      (db.rows t.table).filter fun r => Tenancy.Belongs id r) :
    readProfile e id db' = readProfile e id db := by
  have hshown : ∀ t ∈ all, shownList e id t db' = shownList e id t db := by
    intro t ht
    rw [shownList, listRows, hlists t ht, shownList, listRows]
  simp only [all, List.forall_mem_cons] at hshown
  obtain ⟨hcompanies, hroles, hindustries, hlocations, -⟩ := hshown
  simp only [readProfile, accounts, profile, husers, hcompanies, hroles, hindustries, hlocations]

/-- Every list is shown under its own name. -/
theorem get?_profile (targets : Targets) (account : Record) :
    ∀ l ∈ targets.named, (profile e id db account).get? l.name = some (.sequence (shownList e id l.table db)) := by
  simp [Targets.named, profile, Record.get?_insert]

theorem get?_profile_of_notMem {key : String} (targets : Targets) (h : key ∉ targets.named.map (·.name))
    (account : Record) : (profile e id db account).get? key = account.get? key := by
  simp only [Targets.named, List.map_cons, List.map_nil, List.mem_cons, List.not_mem_nil, or_false, not_or] at h
  obtain ⟨hcompanies, hroles, hindustries, hlocations⟩ := h
  simp only [profile, Record.get?_insert, if_neg (Ne.symm hcompanies), if_neg (Ne.symm hroles),
    if_neg (Ne.symm hindustries), if_neg (Ne.symm hlocations)]

/-! ## The rows of other users -/

def SparesOthers (id : String) (db db' : Database) : Prop :=
  ∀ other, castUuid (.text other) ≠ castUuid (.text id) → ∀ table,
    (db'.rows table).filter (fun r => Tenancy.Belongs other r) =
      (db.rows table).filter fun r => Tenancy.Belongs other r

theorem SparesOthers.refl (id : String) (db : Database) : SparesOthers id db db := fun _ _ _ => rfl

theorem SparesOthers.trans {db'' : Database} (h : SparesOthers id db db') (h' : SparesOthers id db' db'') :
    SparesOthers id db db'' := fun other hne table => (h' other hne table).trans (h other hne table)

theorem not_belongs {other : String} (hne : castUuid (.text other) ≠ castUuid (.text id)) {r : Record}
    (hbelongs : Tenancy.Belongs id r) : ¬ Tenancy.Belongs other r := fun h => hne (h.trans hbelongs.symm)

theorem sparesOthers_clear {rows : List Record} (hrun : t.clearQuery.run e [.text id] db = .ok (rows, db')) :
    SparesOthers id db db' := by
  rw [run_clearQuery] at hrun
  obtain ⟨-, -, hrun⟩ := map_eq_ok.mp hrun
  cases hrun
  intro other hne table
  rw [Sql.rows_set]
  split
  · rename_i htable
    rw [htable, List.filter_filter]
    refine List.filter_congr fun r _ => ?_
    by_cases hr : Tenancy.Belongs id r
    · simp [not_belongs hne hr]
    · simp [hr]
  · rfl

theorem sparesOthers_add (ht : t ∈ all) {value : String} {rows : List Record}
    (hrun : t.addQuery.run e [.text id, .text value] db = .ok (rows, db')) : SparesOthers id db db' := by
  obtain ⟨v, -, ⟨-, rfl⟩ | ⟨-, row, hbelongs, -, rfl⟩⟩ := run_add_cases ht hrun
  · exact .refl id db'
  · intro other hne table
    rw [Sql.rows_set]
    split
    · rename_i htable
      rw [htable, List.filter_append]
      simp [not_belongs hne hbelongs]
    · rfl

theorem sparesOthers_execute {sql : String} {q : Query} (hread : read? sql = some q) {params : List Value}
    (hq : ∀ {rows db'}, q.run e params s.db = .ok (rows, db') → SparesOthers id s.db db')
    {x : Except ServiceError (List Record)} (hruns : (Service.execute sql params).run.Runs e s x s') :
    SparesOthers id s.db s'.db := by
  rcases (runs_execute_iff hread).mp hruns with ⟨rows, db', hrun, -, rfl⟩ | ⟨err, -, -, rfl⟩
  · exact hq hrun
  · exact .refl id s'.db

/-- A replacement leaves the rows of other users alone, also if it fails. -/
theorem sparesOthers_of_runs {x : Except ServiceError Unit} (hruns : (replaceTargets id targets).run.Runs e s x s') :
    SparesOthers id s.db s'.db := by
  rw [replaceTargets_eq] at hruns
  have hadd : ∀ t ∈ all, ∀ value {y s s'}, (do
      let _ ← Service.execute (t.add id value).sql (t.add id value).params).run.Runs e s y s' →
        SparesOthers id s.db s'.db := by
    intro t ht value y s s' h
    rcases runs_andThen_iff.mp h with ⟨rows, s₁, hexecute, hdone⟩ | ⟨err, hexecute, -⟩
    · obtain ⟨-, rfl⟩ := runs_pure_iff.mp hdone
      exact sparesOthers_execute (read?_add ht id value) (sparesOthers_add ht) hexecute
    · exact sparesOthers_execute (read?_add ht id value) (sparesOthers_add ht) hexecute
  have hlist : ∀ l ∈ targets.lists, ∀ {y s s'}, (replaceList id l.1 l.2).run.Runs e s y s' →
      SparesOthers id s.db s'.db := by
    rintro ⟨t, list⟩ hl y s s' h
    have ht := lists_known targets _ hl
    cases list with
    | none =>
      obtain ⟨-, rfl⟩ := runs_pure_iff.mp h
      exact .refl id s'.db
    | some values =>
      rcases runs_andThen_iff.mp h with ⟨rows, s₁, hclear, hadds⟩ | ⟨err, hclear, -⟩
      · refine (sparesOthers_execute (read?_clear ht id) sparesOthers_clear hclear).trans ?_
        exact runs_forM_keeps (R := fun s s' => SparesOthers id s.db s'.db) (fun s => .refl id s.db)
          (fun h h' => h.trans h') (fun value _ => hadd t ht value) hadds
      · exact sparesOthers_execute (read?_clear ht id) sparesOthers_clear hclear
  exact runs_forM_keeps (R := fun s s' => SparesOthers id s.db s'.db) (fun s => .refl id s.db)
    (fun h h' => h.trans h') hlist hruns

/-! ## Lists that were replaced -/

/-- A replacement that runs to its end has replaced every list, and no other table is changed. -/
theorem runs_lists {lists : List (TargetTable × Option (List String))} (hknown : ∀ l ∈ lists, l.1 ∈ all)
    (hnodup : (lists.map (·.1.table)).Nodup)
    (hruns : (lists.forM fun l => replaceList id l.1 l.2).run.Runs e s (.ok ()) s') :
    (∀ table ∉ lists.map (·.1.table), s'.db.rows table = s.db.rows table) ∧
      ∀ l ∈ lists, Replaced e id l.1 l.2 s.db s'.db := by
  induction lists generalizing s with
  | nil =>
    obtain ⟨-, rfl⟩ := runs_pure_iff.mp hruns
    exact ⟨fun _ _ => rfl, by simp⟩
  | cons l rest ih =>
    obtain ⟨hl, hrest⟩ := List.forall_mem_cons.mp hknown
    obtain ⟨hnew, hnodup⟩ := List.nodup_cons.mp hnodup
    rcases runs_andThen_iff.mp hruns with ⟨_, s₁, hfirst, hmore⟩ | ⟨err, -, hx⟩
    · obtain ⟨script, hplays, hfollows⟩ := exists_follows_of_runs hfirst
      obtain ⟨htouches, ⟨-, hreplaced⟩ | ⟨_, _, _, -, -, -, hx⟩⟩ := follows_replaceList hl hplays hfollows
      · obtain ⟨hframe, hlists⟩ := ih hrest hnodup hmore
        constructor
        · intro table htable
          rw [List.map_cons, List.mem_cons, not_or] at htable
          exact (hframe table htable.2).trans (htouches table htable.1)
        · intro l' hl'
          rcases List.mem_cons.mp hl' with rfl | hl'
          · exact hreplaced.congr rfl (hframe _ hnew)
          · have hother : l'.1.table ≠ l.1.table := by
              intro he
              have hmem : l'.1.table ∈ rest.map (·.1.table) := List.mem_map_of_mem hl'
              rw [he] at hmem
              exact hnew hmem
            exact (hlists l' hl').congr (htouches _ hother).symm rfl
      · cases hx
    · cases hx

theorem runs_replaceTargets (hruns : (replaceTargets id targets).run.Runs e s (.ok ()) s') :
    s'.db.rows "users" = s.db.rows "users" ∧ ∀ l ∈ targets.named, Replaced e id l.table l.values s.db s'.db := by
  rw [replaceTargets_eq] at hruns
  obtain ⟨hframe, hlists⟩ := runs_lists (lists_known targets) (lists_nodup targets) hruns
  refine ⟨hframe "users" ?_, fun l hl => hlists _ (mem_lists hl)⟩
  simp [Targets.lists, companyTargets, roleTargets, industryTargets, locationTargets]

/-- What a table stores for a value: a company's id in one spelling, and any other value as it is. -/
def storedAs (t : TargetTable) (value : String) : Except DatabaseError Value :=
  if t = companyTargets then castUuid (.text value) else .ok (.text value)

theorem castTo_type? (ht : t ∈ all) (e : Engine) (value : String) :
    castTo e (.text value) t.type? = storedAs t value := by
  simp only [all, List.mem_cons, List.not_mem_nil, or_false] at ht
  rcases ht with rfl | rfl | rfl | rfl <;> rfl

/-- A list holds each of the given values once and nothing else. -/
structure Lists (t : TargetTable) (values : List String) (shown : List Value) : Prop where
  nodup : shown.Nodup
  complete : ∀ value ∈ values, ∃ v ∈ shown, storedAs t value = .ok v
  sound : ∀ v ∈ shown, ∃ value ∈ values, storedAs t value = .ok v

theorem Holds.lists {values : List String} (ht : t ∈ all) (h : Holds e id t values db) :
    Lists t values (shownList e id t db) := by
  obtain ⟨stored, hstored, hnodup, hmem⟩ := h
  have hperm := shownList_perm e id t db
  simp only [castTo_type? ht] at hstored
  refine ⟨hperm.nodup_iff.mpr hnodup, ?_, ?_⟩
  · intro value hvalue
    obtain ⟨v, hv, hcast⟩ := exists_of_mapM_eq_ok hstored hvalue
    exact ⟨v, hperm.mem_iff.mpr ((hmem v).mpr hv), hcast⟩
  · intro v hv
    exact exists_of_mem_of_mapM_eq_ok hstored ((hmem v).mp (hperm.mem_iff.mp hv))

theorem Lists.eq_nil {shown : List Value} (h : Lists t [] shown) : shown = [] := by
  rw [List.eq_nil_iff_forall_not_mem]
  intro v hv
  obtain ⟨value, hvalue, -⟩ := h.sound v hv
  cases hvalue

/-! ## Replacing and reading back -/

/-- What the profiles say before and after a replacement. -/
structure ReadBack (e : Engine) (id : String) (targets : Targets) (s s' : Storage) (before after : Record) :
    Prop where
  reads_before : ∀ x s'', (find id).run.Runs e s x s'' ↔ x = .ok before ∧ s'' = s
  reads_after : ∀ x s'', (find id).run.Runs e s' x s'' ↔ x = .ok after ∧ s'' = s'
  given : ∀ l ∈ targets.named, ∀ values, l.values = some values →
    ∃ shown, after.get? l.name = some (.sequence shown) ∧ Lists l.table values shown
  kept : ∀ key, (∀ l ∈ targets.named, l.name = key → l.values = none) → after.get? key = before.get? key
  others : ∀ other, castUuid (.text other) ≠ castUuid (.text id) →
    (∀ t ∈ all, targetList other t s'.db = targetList other t s.db) ∧
      ∀ x, (find other).run.Runs e s' x s' ↔ (find other).run.Runs e s x s

theorem named_known {l : NamedList} (h : l ∈ targets.named) : l.table ∈ all := lists_known targets _ (mem_lists h)

theorem exists_readProfile (haccount : ∃ account ∈ db.rows "users", Tenancy.IsAccount id account) :
    ∃ account, ∀ db', db'.rows "users" = db.rows "users" → readProfile e id db' = .ok (profile e id db' account) := by
  obtain ⟨row, hrow, haccount⟩ := haccount
  obtain ⟨account, rest, hcons⟩ : ∃ account rest, accounts e id db = account :: rest := by
    refine List.exists_cons_of_ne_nil ?_
    rw [accounts, Ne, List.map_eq_nil_iff, arrange_eq_nil_iff, List.filter_eq_nil_iff]
    exact fun h => h row hrow (decide_eq_true haccount)
  refine ⟨account, fun db' husers => ?_⟩
  have hsame : accounts e id db' = account :: rest := by rw [accounts, husers, ← hcons, accounts]
  rw [readProfile, haccount, hsame]

/-- What is shown under a key whose list was not replaced, or that is no list. -/
theorem get?_profile_kept (hreplaced : ∀ l ∈ targets.named, Replaced e id l.table l.values db db') (account : Record)
    {key : String} (hkey : ∀ l ∈ targets.named, l.name = key → l.values = none) :
    (profile e id db' account).get? key = (profile e id db account).get? key := by
  by_cases hmem : key ∈ targets.named.map (·.name)
  · obtain ⟨l, hl, rfl⟩ := List.mem_map.mp hmem
    have hlist := hreplaced l hl
    rw [hkey l hl rfl] at hlist
    have hrows : db'.rows l.table.table = db.rows l.table.table := hlist
    have hshown : shownList e id l.table db' = shownList e id l.table db := by
      rw [shownList, listRows, hrows, shownList, listRows]
    rw [get?_profile targets account l hl, get?_profile targets account l hl, hshown]
  · rw [get?_profile_of_notMem targets hmem, get?_profile_of_notMem targets hmem]

theorem exists_readBack (haccount : ∃ account ∈ s.db.rows "users", Tenancy.IsAccount id account)
    (hruns : (replaceTargets id targets).run.Runs e s (.ok ()) s') :
    ∃ before after, ReadBack e id targets s s' before after := by
  obtain ⟨husers, hreplaced⟩ := runs_replaceTargets hruns
  obtain ⟨account, hprofile⟩ := exists_readProfile (e := e) haccount
  have hspares := sparesOthers_of_runs hruns
  refine ⟨profile e id s.db account, profile e id s'.db account, ?_, ?_, ?_, ?_, ?_⟩
  · intro x s''
    rw [runs_find_iff, hprofile s.db rfl]
  · intro x s''
    rw [runs_find_iff, hprofile s'.db husers]
  · intro l hl values hvalues
    have hlist := hreplaced l hl
    rw [hvalues] at hlist
    exact ⟨_, get?_profile targets account l hl, Holds.lists (named_known hl) hlist⟩
  · exact fun key hkey => get?_profile_kept hreplaced account hkey
  · intro other hne
    constructor
    · intro t _
      rw [targetList, hspares other hne, targetList]
    · intro x
      rw [runs_find_iff, runs_find_iff, readProfile_congr husers fun t _ => hspares other hne t.table]
      simp

theorem runs_ensureSelf {caller : Caller} {x : Except Refusal Unit}
    (hruns : (ensureSelf caller id).run.Runs e s x s') : s' = s := by
  unfold ensureSelf at hruns
  split at hruns
  · exact (runs_pure_iff.mp hruns).2
  · exact (runs_throw_iff.mp hruns).2

/-- A request that was answered has replaced the lists of its body. -/
theorem runs_endpoint {caller : Caller} {body : Value} {reply : Reply}
    (hruns : (Endpoint.replaceTargets caller id body).run.Runs e s (.ok reply) s') :
    ∃ sent, targetsForm.run body = .ok sent ∧ (replaceTargets id sent).run.Runs e s (.ok ()) s' := by
  unfold Endpoint.replaceTargets at hruns
  obtain ⟨_, s₁, hself, hrest⟩ := runs_andThen_eq_ok_iff.mp hruns
  obtain rfl := runs_ensureSelf hself
  obtain ⟨sent, s₂, hform, hmore⟩ := runs_andThen_eq_ok_iff.mp hrest
  obtain ⟨hsent, rfl⟩ := runs_ofExcept_iff.mp hform
  obtain ⟨_, s₃, hservice, hreply⟩ := runs_andThen_eq_ok_iff.mp hmore
  obtain ⟨y, hreplace, hy⟩ := runs_service_iff.mp hservice
  obtain ⟨-, rfl⟩ := runs_pure_iff.mp hreply
  cases hrun : targetsForm.run body with
  | error err =>
    rw [hrun] at hsent
    cases hsent
  | ok targets =>
    rw [hrun] at hsent
    cases hsent
    cases y with
    | error err => cases hy
    | ok _ => exact ⟨sent, rfl, hreplace⟩

/-- After a replacement that ran to its end the profile shows in each list that was given its distinct
values, and all else as it was; the lists of other users are as they were. A request empties the lists
that are null in its body and leaves those that are not in it. -/
theorem replaceTargets_reads_back (haccount : ∃ account ∈ s.db.rows "users", Tenancy.IsAccount id account) :
    (∀ targets, (replaceTargets id targets).run.Runs e s (.ok ()) s' →
        ∃ before after, ReadBack e id targets s s' before after) ∧
      ∀ caller body reply, (Endpoint.replaceTargets caller id body).run.Runs e s (.ok reply) s' →
        ∃ sent before after, ReadBack e id sent s s' before after ∧ ∀ l ∈ sent.named,
          Rule.optionalTexts (body.get? l.field) = some l.values ∧
          (body.get? l.field = some .null → after.get? l.name = some (.sequence [])) ∧
          (body.get? l.field = none → after.get? l.name = before.get? l.name) := by
  refine ⟨fun targets hruns => exists_readBack haccount hruns, ?_⟩
  intro caller body reply hruns
  obtain ⟨sent, hform, hreplace⟩ := runs_endpoint hruns
  obtain ⟨before, after, h⟩ := exists_readBack haccount hreplace
  refine ⟨sent, before, after, h, fun l hl => ?_⟩
  have hread := optionalTexts_of_targetsForm hform l hl
  refine ⟨hread, ?_, ?_⟩
  · intro hnull
    rw [hnull] at hread
    obtain ⟨shown, hshown, hlists⟩ := h.given l hl [] (Option.some.inj hread).symm
    rw [hshown, hlists.eq_nil]
  · intro habsent
    rw [habsent] at hread
    refine h.kept l.name fun l' hl' hname => ?_
    rw [List.inj_on_of_nodup_map (names_nodup sent) hl' hl hname]
    exact (Option.some.inj hread).symm

/-! ## A replacement that runs -/

/-- A replacement of lists whose values can be stored does not fail. -/
theorem exists_runs_replaceTargets (hid : ∃ owner, castUuid (.text id) = .ok owner)
    (hvalues : ∀ l ∈ targets.lists, ∀ values, l.2 = some values → ∀ value ∈ values, ∃ v, storedAs l.1 value = .ok v)
    (s : Storage) : ∃ s', (replaceTargets id targets).run.Runs e s (.ok ()) s' := by
  obtain ⟨owner, howner⟩ := hid
  rw [replaceTargets_eq]
  refine exists_runs_forM ?_ s
  rintro ⟨t, list⟩ hl s
  have ht := lists_known targets _ hl
  cases list with
  | none => exact ⟨s, runs_pure_iff.mpr ⟨rfl, rfl⟩⟩
  | some values =>
    obtain ⟨db', hclear⟩ : ∃ db', t.clearQuery.run e [.text id] s.db = .ok ([], db') := by
      rw [run_clearQuery, howner]
      exact ⟨_, rfl⟩
    have hcleared := (runs_execute_ok_iff (read?_clear ht id) hclear).mpr ⟨rfl, rfl⟩
    have hadd : ∀ value ∈ values, ∀ s, ∃ s', (do
        let _ ← Service.execute (t.add id value).sql (t.add id value).params).run.Runs e s (.ok ()) s' := by
      intro value hvalue s
      obtain ⟨v, hv⟩ := hvalues _ hl values rfl value hvalue
      obtain ⟨db', hrun⟩ : ∃ db', t.addQuery.run e [.text id, .text value] s.db = .ok ([], db') := by
        rw [run_addQuery, howner, castTo_type? ht, hv]
        dsimp only [bind, Except.bind]
        split
        · exact ⟨_, rfl⟩
        · exact ⟨_, rfl⟩
      have hexecute := (runs_execute_ok_iff (read?_add ht id value) hrun).mpr ⟨rfl, rfl⟩
      exact ⟨_, Runs.andThen hexecute (runs_pure_iff.mpr ⟨rfl, rfl⟩)⟩
    obtain ⟨s', hadds⟩ := exists_runs_forM hadd { s with db := db' }
    exact ⟨s', Runs.andThen hcleared hadds⟩

theorem exists_runs_endpoint {caller : Caller} (hself : id = caller.userId) {body : Value}
    (hform : targetsForm.run body = .ok targets) (hruns : (replaceTargets id targets).run.Runs e s (.ok ()) s') :
    ∃ reply, (Endpoint.replaceTargets caller id body).run.Runs e s (.ok reply) s' := by
  unfold Endpoint.replaceTargets
  rw [ensureSelf, if_pos hself, hform]
  exact ⟨_, Runs.andThen (runs_pure_iff.mpr ⟨rfl, rfl⟩) (Runs.andThen (runs_ofExcept_iff.mpr ⟨rfl, rfl⟩)
    (Runs.andThen (runs_service_iff.mpr ⟨_, hruns, rfl⟩) (runs_pure_iff.mpr ⟨rfl, rfl⟩)))⟩

/-- A body that empties one list, gives another one with a value twice, and leaves two out. -/
def rolesBody : Value :=
  .record [("targetCompanies", .null), ("targetRoles", .sequence [.text "Engineer", .text "Analyst", .text "Engineer"])]

/-- A user who aims for one company and has an account. -/
def member (user company : String) : Storage :=
  (aiming user company).set "users" [[("id", .text user)]]

theorem replaceTargets_reads_back_roles :
    ∃ id s s' caller reply, (∃ account ∈ s.db.rows "users", Tenancy.IsAccount id account) ∧
      (Endpoint.replaceTargets caller id rolesBody).run.Runs .plain s (.ok reply) s' ∧
      ∃ sent before after, ReadBack .plain id sent s s' before after ∧ ∀ l ∈ sent.named,
        Rule.optionalTexts (rolesBody.get? l.field) = some l.values ∧
        (rolesBody.get? l.field = some .null → after.get? l.name = some (.sequence [])) ∧
        (rolesBody.get? l.field = none → after.get? l.name = before.get? l.name) := by
  let id := Uuid.print (List.replicate 32 1)
  let company := Uuid.print (List.replicate 32 2)
  have hid : castUuid (.text id) = .ok (.text id) := castUuid_replicate (by decide)
  have haccount : ∃ account ∈ (member id company).db.rows "users", Tenancy.IsAccount id account :=
    ⟨[("id", .text id)], by simp [member, Storage.rows_set], hid⟩
  let sent : Targets := ⟨some [], some ["Engineer", "Analyst", "Engineer"], none, none⟩
  have hform : targetsForm.run rolesBody = .ok sent := by decide
  have hvalues : ∀ l ∈ sent.lists, ∀ values, l.2 = some values → ∀ value ∈ values,
      ∃ v, storedAs l.1 value = .ok v := by
    simp [sent, Targets.lists, storedAs, roleTargets, companyTargets]
  obtain ⟨s', hreplace⟩ := exists_runs_replaceTargets (e := .plain) ⟨_, hid⟩ hvalues (member id company)
  obtain ⟨reply, hruns⟩ := exists_runs_endpoint (show id = (Caller.mk id "").userId from rfl) hform hreplace
  exact ⟨id, _, s', _, reply, haccount, hruns, (replaceTargets_reads_back haccount).2 _ rolesBody reply hruns⟩

end JobTrail.User
