import JobTrail.Proofs.Tenancy.Ownership

/-!
# Queries that keep to one owner

A query that asks for the owner meets only rows of that owner. If it does not assign the owner nor the
ids of a row, then the rows of others, the owners of all rows and what the ids were given out for stay
as they are. A new row with the owner's ids has the same effect, and so has a change of the rows with an
id that was given out for the owner.
-/

namespace JobTrail

namespace Sql

/-! ## Parts of a query -/

def Columns.shows (c : String) : Columns → Bool
  | all => true
  | these names => c ∈ names

theorem Columns.column_pick {columns : Columns} {c : String} (h : columns.shows c = true) (r : Record) :
    (columns.pick r).column c = r.column c := by
  cases columns with
  | all => rfl
  | these names => exact Record.column_map names r.column (of_decide_eq_true h)

theorem Columns.mem_pick {columns : Columns} {r : Record} {entry : String × Value}
    (h : entry ∈ columns.pick r) : entry.2 = .null ∨ ∃ c, (c, entry.2) ∈ r := by
  cases columns with
  | all => exact .inr ⟨entry.1, h⟩
  | these names =>
    obtain ⟨name, -, rfl⟩ := List.mem_map.mp h
    exact (r.column_eq_null_or_mem name).imp_right fun hmem => ⟨name, hmem⟩

theorem mem_answerRows {returning : Option Columns} {rows : List Record} {row : Record}
    (h : row ∈ answerRows returning rows) : ∃ columns, returning = some columns ∧ ∃ r ∈ rows,
      row = columns.pick r := by
  cases returning with
  | none => cases h
  | some columns =>
    obtain ⟨r, hr, rfl⟩ := List.mem_map.mp h
    exact ⟨columns, rfl, r, hr, rfl⟩

def Query.table : Query → String
  | select _ table .. => table
  | insert table .. => table
  | update table .. => table
  | delete table .. => table

def Query.conditions : Query → List Condition
  | select _ _ _ conditions _ => conditions
  | insert .. => []
  | update _ _ conditions _ => conditions
  | delete _ conditions _ => conditions

def Query.shows (c : String) : Query → Bool
  | select columns .. => columns.shows c
  | insert _ _ _ _ returning => returning.any (·.shows c)
  | update _ _ _ returning => returning.any (·.shows c)
  | delete _ _ returning => returning.any (·.shows c)

/-! ## Joined rows -/

variable {db : Database} {r found : Record} {join : Option Join}

theorem column_addColumns {other : Record} {added : List (String × String)} {c : String}
    (hc : ∀ a ∈ added, a.2 ≠ c) :
    (added.foldl (fun new a => new.insert a.2 (other.column a.1)) r).column c = r.column c := by
  induction added generalizing r with
  | nil => rfl
  | cons a rest ih =>
    obtain ⟨ha, hrest⟩ := List.forall_mem_cons.mp hc
    rw [List.foldl_cons, ih hrest, Record.column_insert, if_neg ha]

theorem mem_addColumns {other : Record} {added : List (String × String)} {entry : String × Value}
    (h : entry ∈ added.foldl (fun new a => new.insert a.2 (other.column a.1)) r) :
    entry ∈ r ∨ ∃ c, entry.2 = other.column c := by
  induction added generalizing r with
  | nil => exact .inl h
  | cons a rest ih =>
    rcases ih h with hmem | hother
    · rcases Record.mem_insert hmem with rfl | hmem
      · exact .inr ⟨a.1, rfl⟩
      · exact .inl hmem
    · exact .inr hother

theorem column_of_mem_join (h : found ∈ Join.rows db r join) {c : String}
    (hc : ∀ j ∈ join, ∀ a ∈ j.added, a.2 ≠ c) : found.column c = r.column c := by
  cases join with
  | none =>
    rw [List.mem_singleton.mp h]
  | some j =>
    obtain ⟨other, -, rfl⟩ := List.mem_map.mp h
    exact column_addColumns (hc j rfl)

theorem mem_of_mem_join (h : found ∈ Join.rows db r join) {entry : String × Value}
    (hentry : entry ∈ found) : entry ∈ r ∨ ∃ j ∈ join, ∃ other ∈ db.rows j.table,
      r.column j.column = other.column j.key ∧ ∃ c, entry.2 = other.column c := by
  cases join with
  | none =>
    rw [List.mem_singleton.mp h] at hentry
    exact .inl hentry
  | some j =>
    obtain ⟨other, hother, rfl⟩ := List.mem_map.mp h
    obtain ⟨hmem, hequal⟩ := List.mem_filter.mp hother
    refine (mem_addColumns hentry).imp_right fun hc => ⟨j, rfl, other, hmem, ?_, hc⟩
    exact (isEqual_iff.mp hequal).1

end Sql

namespace Tenancy

open Sql

variable {e : Engine} {ρ : Registry} {s : Storage} {user table : String} {params : List Value}
  {conditions : List Condition} {test : Record → Bool} {db' : Database} {rows : List Record}

/-! ## Changes of single tables -/

theorem filter_map_of_keeps {α : Type} {p : α → Bool} {f : α → α} {l : List α}
    (hkeep : ∀ a ∈ l, p a = true → f a = a) (hout : ∀ a ∈ l, p a = false → p (f a) = false) :
    (l.map f).filter p = l.filter p := by
  induction l with
  | nil => rfl
  | cons a rest ih =>
    obtain ⟨hkeep, hkeeps⟩ := List.forall_mem_cons.mp hkeep
    obtain ⟨hout, houts⟩ := List.forall_mem_cons.mp hout
    have hrest := ih hkeeps houts
    cases hp : p a with
    | true => simp [hkeep hp, hp, hrest]
    | false => simp [hout hp, hp, hrest]

theorem isolated_set {db : Database} (ht : table ∈ tables)
    (h : rows.filter (¬ Belongs user ·) = (db.rows table).filter (¬ Belongs user ·)) :
    Isolated user db (db.set table rows) := by
  constructor
  · intro t _
    rw [rows_set]
    split
    · rename_i he
      rw [h, he]
    · rfl
  · have hne : "users" ≠ table := fun he => absurd (he ▸ ht) (by decide)
    rw [rows_set, if_neg hne]

theorem consistent_set (h : Consistent ρ s) (hrows : ∀ r ∈ rows, Registered ρ table r) :
    Consistent ρ { s with db := s.db.set table rows } := by
  refine ⟨h.issued, fun t r hr => ?_⟩
  rw [rows_set] at hr
  split at hr
  · rename_i he
    exact he ▸ hrows r hr
  · exact h.registered t r hr

/-! ## Queries that ask for the owner -/

def ownerCondition (place : Nat) : Condition := .equals "user_id" (.parameter place (some "uuid"))

/-- Resumes are joined by an id of the row, and neither the owner nor the ids of the row are covered. -/
def JoinsOwned (table : String) (j : Join) : Prop :=
  j.table = "resumes" ∧ j.column ∈ references table ∧ j.key = "id" ∧
    ∀ a ∈ j.added, a.2 ∉ "user_id" :: references table

instance (table : String) (j : Join) : Decidable (JoinsOwned table j) :=
  inferInstanceAs (Decidable (_ ∧ _))

/-- A query on one of the owners' tables that asks for the owner, and neither assigns the owner or the
ids of a row nor covers them with columns of another table. -/
def isScoped (place : Nat) : Query → Bool
  | .select _ table join conditions _ => table ∈ tables && ownerCondition place ∈ conditions &&
      join.all (JoinsOwned table ·)
  | .update table assignments conditions _ => table ∈ tables && ownerCondition place ∈ conditions &&
      assignments.all fun a => a.1 ∉ "user_id" :: references table
  | .delete table conditions _ => table ∈ tables && ownerCondition place ∈ conditions
  | .insert .. => false

theorem canonical_of_registered (h : Consistent ρ s) {r : Record} (hr : Registered ρ table r) :
    ∀ c ∈ references table, castUuid (r.column c) = .ok (r.column c) := fun c hc =>
  (h.issued _ _ (hr c hc)).2

/-- A row of the user's that the conditions of a query have met. -/
structure Met (ρ : Registry) (user table : String) (conditions : List Condition) (params : List Value)
    (r : Record) : Prop where
  belongs : Belongs user r
  registered : Registered ρ table r
  canonical : ∀ c ∈ references table, castUuid (r.column c) = .ok (r.column c)
  ids : ∀ c ∈ references table, ∀ place, .equals c (.parameter place (some "uuid")) ∈ conditions →
    ∃ v, params[place]? = some v ∧ castUuid v = .ok (r.column c)

theorem met_of_test (h : Consistent ρ s) (htest : bindAll e params conditions = .ok test) {place : Nat}
    (howner : ownerCondition place ∈ conditions) (hparam : params[place]? = some (.text user))
    {r : Record} (hr : r ∈ s.db.rows table) (hpass : test r = true) :
    Met ρ user table conditions params r := by
  constructor
  · obtain ⟨v, w, hv, hw, hrows⟩ := column_eq_of_test htest howner
    cases hparam.symm.trans hv
    rw [Belongs, hrows r hpass]
    exact hw
  · exact h.registered table r hr
  · exact canonical_of_registered h (h.registered table r hr)
  · intro c _ place' hc
    obtain ⟨v, w, hv, hw, hrows⟩ := column_eq_of_test htest hc
    exact ⟨v, hv, by rw [hrows r hpass]; exact hw⟩

theorem Met.congr {r r' : Record} (h : Met ρ user table conditions params r)
    (hcolumns : ∀ c ∈ "user_id" :: references table, r'.column c = r.column c) :
    Met ρ user table conditions params r' := by
  obtain ⟨howner, hids⟩ := List.forall_mem_cons.mp hcolumns
  constructor
  · rw [Belongs, howner]
    exact h.belongs
  · intro c hc
    rw [hids c hc, howner]
    exact h.registered c hc
  · intro c hc
    rw [hids c hc]
    exact h.canonical c hc
  · intro c hc place hcond
    rw [hids c hc]
    exact h.ids c hc place hcond

theorem drawn_of_pick {db : Database} {columns : Columns} {r : Record} (ht : table ∈ tables)
    (hmem : r ∈ db.rows table ++ db'.rows table) (hbelongs : Belongs user r) :
    Drawn user db db' (columns.pick r) := fun _ hentry =>
  (Columns.mem_pick hentry).imp_right fun ⟨c, hc⟩ => ⟨table, ht, r, hmem, hbelongs, c, hc⟩

/-- An answered row shows columns of a row that the conditions have met. -/
def Seen (ρ : Registry) (user : String) (q : Query) (params : List Value) (row : Record) : Prop :=
  ∃ r, Met ρ user q.table q.conditions params r ∧
    ∀ c ∈ "user_id" :: references q.table, q.shows c = true → row.column c = r.column c

/-- What a query of one user's keeps to: only the user's rows change, all ids stay with their owners, and
the answer consists of rows that the conditions have met. -/
structure Keeps (ρ : Registry) (user : String) (q : Query) (params : List Value) (s : Storage)
    (rows : List Record) (db' : Database) : Prop where
  isolated : Isolated user s.db db'
  consistent : Consistent ρ { s with db := db' }
  drawn : ∀ row ∈ rows, Drawn user s.db db' row
  seen : ∀ row ∈ rows, Seen ρ user q params row

theorem keeps_select {columns : Columns} {join : Option Join} {order : List SortKey} {place : Nat}
    (h : Consistent ρ s) (hq : isScoped place (.select columns table join conditions order) = true)
    (hparam : params[place]? = some (.text user))
    (hrun : (Query.select columns table join conditions order).run e params s.db = .ok (rows, db')) :
    Keeps ρ user (.select columns table join conditions order) params s rows db' := by
  obtain ⟨rfl, test, htest, hrows⟩ := run_select hrun
  simp only [isScoped, Bool.and_eq_true, decide_eq_true_eq] at hq
  obtain ⟨⟨ht, howner⟩, hall⟩ := hq
  have hjoin : ∀ j ∈ join, JoinsOwned table j := by
    intro j hj
    cases hj
    exact of_decide_eq_true hall
  have hmet : ∀ {r}, r ∈ s.db.rows table → test r = true → Met ρ user table conditions params r :=
    fun hr hpass => met_of_test h htest howner hparam hr hpass
  refine ⟨.refl user s.db, h, ?_, ?_⟩
  · intro row hrow entry hentry
    obtain ⟨r, hr, hpass, found, hfound, rfl⟩ := hrows row hrow
    rcases Columns.mem_pick hentry with hnull | ⟨c, hc⟩
    · exact .inl hnull
    rcases mem_of_mem_join hfound hc with hmem | ⟨j, hj, other, hother, hkey, d, hd⟩
    · exact .inr ⟨table, ht, r, List.mem_append_left _ hr, (hmet hr hpass).belongs, c, hmem⟩
    · obtain ⟨htable, hcolumn, hjkey, -⟩ := hjoin j hj
      rw [htable] at hother
      have hsame : other.column "user_id" = r.column "user_id" := by
        have howns := h.registered "resumes" other hother "id" (by decide)
        rw [← hjkey, ← hkey, (hmet hr hpass).registered _ hcolumn] at howns
        exact (Option.some.inj howns).symm
      have hbelongs : Belongs user other := by
        rw [Belongs, hsame]
        exact (hmet hr hpass).belongs
      rw [hd]
      exact (other.column_eq_null_or_mem d).imp_right fun hmem =>
        ⟨"resumes", by decide, other, List.mem_append_left _ hother, hbelongs, d, hmem⟩
  · intro row hrow
    obtain ⟨r, hr, hpass, found, hfound, rfl⟩ := hrows row hrow
    refine ⟨r, hmet hr hpass, fun c hc hshows => ?_⟩
    rw [Columns.column_pick hshows]
    refine column_of_mem_join hfound fun j hj a ha he => ?_
    obtain ⟨-, -, -, hadded⟩ := hjoin j hj
    exact hadded a ha (he ▸ hc)

theorem keeps_update_of_met {assignments : List (String × Operand)} {returning : Option Columns}
    (h : Consistent ρ s) (ht : table ∈ tables)
    (hassigned : ∀ c ∈ "user_id" :: references table, c ∉ assignments.map (·.1))
    (hmet : ∀ test, bindAll e params conditions = .ok test → ∀ r ∈ s.db.rows table, test r = true →
      Met ρ user table conditions params r)
    (hrun : (Query.update table assignments conditions returning).run e params s.db = .ok (rows, db')) :
    Keeps ρ user (.update table assignments conditions returning) params s rows db' := by
  obtain ⟨sets, test, hsets, htest, rfl, rfl⟩ := run_update hrun
  have hchanged : ∀ r ∈ s.db.rows table, test r = true →
      Met ρ user table conditions params (change sets r) := fun r hr hpass =>
    (hmet test htest r hr hpass).congr fun c hc => column_change_of_bindSets hsets (hassigned c hc) r
  refine ⟨isolated_set ht ?_, consistent_set h ?_, ?_, ?_⟩
  · refine filter_map_of_keeps (fun r hr hother => ?_) (fun r hr hown => ?_)
    · have hfail : test r = false := by
        refine Bool.eq_false_iff.mpr fun hpass => ?_
        exact (of_decide_eq_true hother) (hmet test htest r hr hpass).belongs
      simp [hfail]
    · split
      · rename_i hpass
        exact decide_eq_false (not_not.mpr (hchanged r hr hpass).belongs)
      · exact hown
  · intro r' hr'
    obtain ⟨r, hr, rfl⟩ := List.mem_map.mp hr'
    split
    · rename_i hpass
      exact (hchanged r hr hpass).registered
    · exact h.registered table r hr
  · intro row hrow
    obtain ⟨columns, -, r', hr', rfl⟩ := mem_answerRows hrow
    obtain ⟨r, hr, rfl⟩ := List.mem_map.mp hr'
    obtain ⟨hr, hpass⟩ := List.mem_filter.mp hr
    refine drawn_of_pick ht (List.mem_append_right _ ?_) (hchanged r hr hpass).belongs
    rw [rows_set, if_pos rfl]
    exact List.mem_map.mpr ⟨r, hr, if_pos hpass⟩
  · intro row hrow
    obtain ⟨columns, rfl, r', hr', rfl⟩ := mem_answerRows hrow
    obtain ⟨r, hr, rfl⟩ := List.mem_map.mp hr'
    obtain ⟨hr, hpass⟩ := List.mem_filter.mp hr
    exact ⟨_, hchanged r hr hpass, fun c _ hshows => Columns.column_pick hshows _⟩

theorem keeps_update {assignments : List (String × Operand)} {returning : Option Columns} {place : Nat}
    (h : Consistent ρ s) (hq : isScoped place (.update table assignments conditions returning) = true)
    (hparam : params[place]? = some (.text user))
    (hrun : (Query.update table assignments conditions returning).run e params s.db = .ok (rows, db')) :
    Keeps ρ user (.update table assignments conditions returning) params s rows db' := by
  simp only [isScoped, Bool.and_eq_true, decide_eq_true_eq, List.all_eq_true] at hq
  obtain ⟨⟨ht, howner⟩, hassigned⟩ := hq
  refine keeps_update_of_met h ht (fun c hc hmem => ?_)
    (fun test htest r hr hpass => met_of_test h htest howner hparam hr hpass) hrun
  obtain ⟨a, ha, rfl⟩ := List.mem_map.mp hmem
  exact hassigned a ha hc

theorem keeps_delete {returning : Option Columns} {place : Nat}
    (h : Consistent ρ s) (hq : isScoped place (.delete table conditions returning) = true)
    (hparam : params[place]? = some (.text user))
    (hrun : (Query.delete table conditions returning).run e params s.db = .ok (rows, db')) :
    Keeps ρ user (.delete table conditions returning) params s rows db' := by
  obtain ⟨test, htest, rfl, rfl⟩ := run_delete hrun
  simp only [isScoped, Bool.and_eq_true, decide_eq_true_eq] at hq
  obtain ⟨ht, howner⟩ := hq
  have hmet : ∀ {r}, r ∈ s.db.rows table → test r = true → Met ρ user table conditions params r :=
    fun hr hpass => met_of_test h htest howner hparam hr hpass
  refine ⟨isolated_set ht ?_, consistent_set h ?_, ?_, ?_⟩
  · rw [List.filter_filter]
    refine List.filter_congr fun r hr => ?_
    cases hpass : test r with
    | false => simp
    | true => simp [(hmet hr hpass).belongs]
  · intro r hr
    exact h.registered table r (List.mem_filter.mp hr).1
  · intro row hrow
    obtain ⟨columns, -, r, hr, rfl⟩ := mem_answerRows hrow
    obtain ⟨hr, hpass⟩ := List.mem_filter.mp hr
    exact drawn_of_pick ht (List.mem_append_left _ hr) (hmet hr hpass).belongs
  · intro row hrow
    obtain ⟨columns, rfl, r, hr, rfl⟩ := mem_answerRows hrow
    obtain ⟨hr, hpass⟩ := List.mem_filter.mp hr
    exact ⟨r, hmet hr hpass, fun c _ hshows => Columns.column_pick hshows _⟩

theorem table_mem_of_isScoped {q : Query} {place : Nat} (hq : isScoped place q = true) :
    q.table ∈ tables := by
  cases q <;> simp only [isScoped, Bool.and_eq_true, decide_eq_true_eq] at hq
  · exact hq.1.1
  · cases hq
  · exact hq.1.1
  · exact hq.1

/-- A query that asks for the owner keeps to the owner's rows. -/
theorem keeps_of_isScoped {q : Query} {place : Nat} (h : Consistent ρ s) (hq : isScoped place q = true)
    (hparam : params[place]? = some (.text user)) (hrun : q.run e params s.db = .ok (rows, db')) :
    Keeps ρ user q params s rows db' := by
  cases q with
  | select => exact keeps_select h hq hparam hrun
  | insert => cases hq
  | update => exact keeps_update h hq hparam hrun
  | delete => exact keeps_delete h hq hparam hrun

/-! ## Queries by ids of the owner's -/

def idCondition (place : Nat) : Condition := .equals "id" (.parameter place (some "uuid"))

theorem keeps_update_by_id {assignments : List (String × Operand)} {returning : Option Columns}
    {place : Nat} {v owner : Value} (h : Consistent ρ s) (ht : table ∈ tables)
    (hassigned : ∀ c ∈ "user_id" :: references table, c ∉ assignments.map (·.1))
    (hparam : params[place]? = some v) (howner : castUuid (.text user) = .ok owner) (hv : ρ.Has owner v)
    (hrun : (Query.update table assignments [idCondition place] returning).run e params s.db
      = .ok (rows, db')) :
    Keeps ρ user (.update table assignments [idCondition place] returning) params s rows db' := by
  refine keeps_update_of_met h ht hassigned (fun test htest r hr hpass => ?_) hrun
  obtain ⟨w, id, hw, hcast, hrows⟩ := column_eq_of_test htest List.mem_cons_self
  cases hparam.symm.trans hw
  have hregistered := h.registered table r hr
  have hsame : r.column "user_id" = owner := by
    have howns := hregistered "id" (id_mem_references ht)
    rw [hrows r hpass, hv id hcast] at howns
    exact (Option.some.inj howns).symm
  refine ⟨by rw [Belongs, hsame]; exact howner, hregistered, canonical_of_registered h hregistered,
    fun c _ k hcond => ?_⟩
  cases List.mem_singleton.mp hcond
  exact ⟨v, hparam, by rw [hrows r hpass]; exact hcast⟩

theorem insert_registered {columns : List String} {values : List Operand} {returning : Option Columns}
    {owner : Value}
    (howner : ∃ o, (columns.zip values).lookup "user_id" = some o ∧
      ∀ f, o.bind e params = .ok f → f [] = owner)
    (hids : ∀ c ∈ references table, ∃ place v, (columns.zip values).lookup c
      = some (.parameter place (some "uuid")) ∧ params[place]? = some v ∧ ρ.Has owner v)
    (hrun : (Query.insert table columns values false returning).run e params s.db = .ok (rows, db')) :
    ∃ row : Record, row.column "user_id" = owner ∧ Registered ρ table row ∧
      db' = s.db.set table (s.db.rows table ++ [row]) ∧ rows = answerRows returning [row] := by
  obtain ⟨fs, hfs, ⟨hskip, -⟩ | ⟨rfl, rfl⟩⟩ := run_insert hrun
  · cases hskip
  obtain ⟨o, ho, hvalue⟩ := howner
  obtain ⟨f, hf, hcolumn⟩ := column_newRow table hfs ho
  have hrow := hcolumn.trans (hvalue f hf)
  refine ⟨_, hrow, fun c hc => ?_, rfl, rfl⟩
  obtain ⟨place, v, hlookup, hparam, hv⟩ := hids c hc
  rw [hrow]
  exact hv _ (column_newRow_parameter hfs hlookup hparam)

theorem keeps_insert {columns : List String} {values : List Operand} {returning : Option Columns}
    {place : Nat} (h : Consistent ρ s) (ht : table ∈ tables)
    (howner : (columns.zip values).lookup "user_id" = some (.parameter place (some "uuid")))
    (hparam : params[place]? = some (.text user))
    (hids : ∀ c ∈ references table, ∃ k v, (columns.zip values).lookup c
      = some (.parameter k (some "uuid")) ∧ params[k]? = some v ∧
      ∀ owner, castUuid (.text user) = .ok owner → ρ.Has owner v)
    (hrun : (Query.insert table columns values false returning).run e params s.db = .ok (rows, db')) :
    Keeps ρ user (.insert table columns values false returning) params s rows db' := by
  obtain ⟨fs, hfs, -⟩ := run_insert hrun
  obtain ⟨f, hf, -⟩ := column_newRow table hfs howner
  obtain ⟨v, owner, hv, hcast, hvalue⟩ := bind_parameter_eq_ok hf
  cases hparam.symm.trans hv
  obtain ⟨row, hrow, hregistered, rfl, rfl⟩ := insert_registered
    ⟨_, howner, fun g hg => by cases hf.symm.trans hg; exact hvalue []⟩
    (fun c hc => by
      obtain ⟨k, w, hlookup, hw, hhas⟩ := hids c hc
      exact ⟨k, w, hlookup, hw, hhas owner hcast⟩) hrun
  have hbelongs : Belongs user row := by
    rw [Belongs, hrow]
    exact hcast
  refine ⟨isolated_set ht ?_, consistent_set h ?_, ?_, ?_⟩
  · simp [hbelongs]
  · intro r hr
    rcases List.mem_append.mp hr with hr | hr
    · exact h.registered table r hr
    · rw [List.mem_singleton.mp hr]
      exact hregistered
  · intro shown hshown
    obtain ⟨columns', -, r, hr, rfl⟩ := mem_answerRows hshown
    rw [List.mem_singleton.mp hr]
    refine drawn_of_pick ht (List.mem_append_right _ ?_) hbelongs
    rw [rows_set, if_pos rfl]
    exact List.mem_append_right _ List.mem_cons_self
  · intro shown hshown
    obtain ⟨columns', rfl, r, hr, rfl⟩ := mem_answerRows hshown
    rw [List.mem_singleton.mp hr]
    refine ⟨row, ⟨hbelongs, hregistered, canonical_of_registered h hregistered,
      fun c _ k hk => nomatch hk⟩, fun c _ hshows => ?_⟩
    exact Columns.column_pick hshows row

/-! ## Queries on other tables -/

theorem registered_of_notMem (h : table ∉ tables) (r : Record) : Registered ρ table r := by
  intro c hc
  rw [references_eq_nil h] at hc
  cases hc

def isNeutral : Query → Bool
  | .select .. => true
  | q => q.table ∉ tables

theorem consistent_of_isNeutral {q : Query} (h : Consistent ρ s) (hq : isNeutral q = true)
    (hrun : q.run e params s.db = .ok (rows, db')) : Consistent ρ { s with db := db' } := by
  cases q with
  | select =>
    obtain ⟨rfl, -⟩ := run_select hrun
    exact h
  | insert t columns values skipPresent returning =>
    obtain ⟨fs, -, ⟨-, rfl, -⟩ | ⟨rfl, -⟩⟩ := run_insert hrun
    · exact h
    · exact consistent_set h fun r _ => registered_of_notMem (of_decide_eq_true hq) r
  | update t assignments conditions returning =>
    obtain ⟨sets, test, -, -, rfl, -⟩ := run_update hrun
    exact consistent_set h fun r _ => registered_of_notMem (of_decide_eq_true hq) r
  | delete t conditions returning =>
    obtain ⟨test, -, rfl, -⟩ := run_delete hrun
    exact consistent_set h fun r _ => registered_of_notMem (of_decide_eq_true hq) r

theorem isolated_account {assignments : List (String × Operand)} {returning : Option Columns}
    {place : Nat} (hassigned : "id" ∉ assignments.map (·.1)) (hparam : params[place]? = some (.text user))
    (hrun : (Query.update "users" assignments [idCondition place] returning).run e params s.db
      = .ok (rows, db')) : Isolated user s.db db' := by
  obtain ⟨sets, test, hsets, htest, rfl, -⟩ := run_update hrun
  obtain ⟨v, id, hv, hcast, hrows⟩ := column_eq_of_test htest List.mem_cons_self
  cases hparam.symm.trans hv
  constructor
  · intro t ht
    have hne : t ≠ "users" := fun he => absurd (he ▸ ht) (by decide)
    rw [rows_set, if_neg hne]
  · rw [rows_set, if_pos rfl]
    refine filter_map_of_keeps (fun r hr hother => ?_) (fun r hr hown => ?_)
    · have hfail : test r = false := by
        refine Bool.eq_false_iff.mpr fun hpass => (of_decide_eq_true hother) ?_
        rw [IsAccount, hrows r hpass]
        exact hcast
      simp [hfail]
    · split
      · refine decide_eq_false (not_not.mpr ?_)
        rw [IsAccount, column_change_of_bindSets hsets hassigned]
        exact not_not.mp (of_decide_eq_false hown)
      · exact hown

end Tenancy
end JobTrail
