import JobTrail.Http.Handler
import JobTrail.Proofs.Storage

/-!
# Runs of tasks

A task that runs to its end on one storage, with nothing in between. A run of two tasks in a row is a
run of the first followed by a run of the second, and a task that ends with an error ends there, so a
run of a service or of a handler falls apart into the runs of its effects.
-/

namespace JobTrail

open Sql Storage

variable {e : Engine} {s s' s'' : Storage} {α β ε : Type}

/-- A task runs to its end and nothing else is done meanwhile. -/
inductive Task.Runs (e : Engine) {α : Type} : Task α → Storage → α → Storage → Prop where
  | done (a : α) (s : Storage) : Runs e (.done a) s a s
  | ask {r : Effect} {next : r.Answer → Task α} {x : r.Answer} {s s' s'' : Storage} {a : α} :
      Serves e s r x s' → Runs e (next x) s' a s'' → Runs e (.ask r next) s a s''

namespace Task

theorem runs_done_iff {a b : α} : (Task.done a).Runs e s b s' ↔ b = a ∧ s' = s := by
  constructor
  · intro h
    cases h
    exact ⟨rfl, rfl⟩
  · rintro ⟨rfl, rfl⟩
    exact .done _ _

theorem runs_ask_iff {r : Effect} {next : r.Answer → Task α} {a : α} :
    (Task.ask r next).Runs e s a s'' ↔ ∃ x s', Serves e s r x s' ∧ (next x).Runs e s' a s'' := by
  constructor
  · intro h
    cases h with
    | ask hserves hrest => exact ⟨_, _, hserves, hrest⟩
  · rintro ⟨x, s', hserves, hrest⟩
    exact .ask hserves hrest

theorem runs_bind_iff {t : Task α} {f : α → Task β} {b : β} :
    (t.bind f).Runs e s b s'' ↔ ∃ a s', t.Runs e s a s' ∧ (f a).Runs e s' b s'' := by
  induction t generalizing s with
  | done a =>
    simp only [bind, runs_done_iff]
    constructor
    · intro h
      exact ⟨a, s, ⟨rfl, rfl⟩, h⟩
    · rintro ⟨_, _, ⟨rfl, rfl⟩, h⟩
      exact h
  | ask r next ih =>
    simp only [bind, runs_ask_iff, ih]
    constructor
    · rintro ⟨x, s₁, hserves, a, s', hnext, hrest⟩
      exact ⟨a, s', ⟨x, s₁, hserves, hnext⟩, hrest⟩
    · rintro ⟨a, s', ⟨x, s₁, hserves, hnext⟩, hrest⟩
      exact ⟨x, s₁, hserves, a, s', hnext, hrest⟩

theorem runs_perform_iff {r : Effect} {x : r.Answer} :
    (Task.perform r).Runs e s x s' ↔ Serves e s r x s' := by
  rw [perform, runs_ask_iff]
  constructor
  · rintro ⟨y, s₁, hserves, hdone⟩
    obtain ⟨rfl, rfl⟩ := runs_done_iff.mp hdone
    exact hserves
  · intro h
    exact ⟨x, s', h, .done x s'⟩

end Task

/-! ## Tasks that may end with an error -/

section Results

variable {x : Except ε β} {m : ExceptT ε Task α} {f : α → ExceptT ε Task β}

theorem runs_pure_iff {b : β} : (pure b : ExceptT ε Task β).run.Runs e s x s' ↔ x = .ok b ∧ s' = s :=
  Task.runs_done_iff

theorem runs_throw_iff {err : ε} :
    (throw err : ExceptT ε Task β).run.Runs e s x s' ↔ x = .error err ∧ s' = s := Task.runs_done_iff

/-- What comes after an error is not run. -/
theorem runs_andThen_iff :
    (m >>= f).run.Runs e s x s'' ↔
      (∃ a s', m.run.Runs e s (.ok a) s' ∧ (f a).run.Runs e s' x s'') ∨
        ∃ err, m.run.Runs e s (.error err) s'' ∧ x = .error err := by
  have hbind : (m >>= f).run.Runs e s x s'' ↔
      ∃ y s', m.run.Runs e s y s' ∧ (ExceptT.bindCont f y).Runs e s' x s'' := Task.runs_bind_iff
  rw [hbind]
  constructor
  · rintro ⟨y, s', hm, hf⟩
    cases y with
    | ok a => exact .inl ⟨a, s', hm, hf⟩
    | error err =>
      obtain ⟨rfl, rfl⟩ := Task.runs_done_iff.mp hf
      exact .inr ⟨err, hm, rfl⟩
  · rintro (⟨a, s', hm, hf⟩ | ⟨err, hm, rfl⟩)
    · exact ⟨.ok a, s', hm, hf⟩
    · exact ⟨.error err, s'', hm, .done _ _⟩

theorem Runs.andThen {a : α} (hm : m.run.Runs e s (.ok a) s') (hf : (f a).run.Runs e s' x s'') :
    (m >>= f).run.Runs e s x s'' := runs_andThen_iff.mpr (.inl ⟨a, s', hm, hf⟩)

theorem runs_andThen_eq_ok_iff {b : β} :
    (m >>= f).run.Runs e s (.ok b) s'' ↔
      ∃ a s', m.run.Runs e s (.ok a) s' ∧ (f a).run.Runs e s' (.ok b) s'' := by
  rw [runs_andThen_iff]
  simp

/-- A first part that can only end in one way leaves the rest to run from there. -/
theorem runs_andThen_ok_iff {a : α} (hm : ∀ y s₁, m.run.Runs e s y s₁ ↔ y = .ok a ∧ s₁ = s') :
    (m >>= f).run.Runs e s x s'' ↔ (f a).run.Runs e s' x s'' := by
  rw [runs_andThen_iff]
  simp [hm, and_assoc]

theorem runs_andThen_error_iff {err : ε} (hm : ∀ y s₁, m.run.Runs e s y s₁ ↔ y = .error err ∧ s₁ = s') :
    (m >>= f).run.Runs e s x s'' ↔ x = .error err ∧ s'' = s' := by
  rw [runs_andThen_iff]
  simp [hm, and_assoc, and_comm]

/-- What every step of a loop keeps, the loop keeps, also if it ends with an error. -/
theorem runs_forM_keeps {κ : Type} {step : κ → ExceptT ε Task PUnit} {R : Storage → Storage → Prop}
    (hrefl : ∀ s, R s s) (htrans : ∀ {s s' s''}, R s s' → R s' s'' → R s s'') {items : List κ}
    (hstep : ∀ item ∈ items, ∀ {y s s'}, (step item).run.Runs e s y s' → R s s') {x : Except ε PUnit}
    (hruns : (items.forM step).run.Runs e s x s') : R s s' := by
  induction items generalizing s with
  | nil =>
    obtain ⟨-, rfl⟩ := runs_pure_iff.mp hruns
    exact hrefl s'
  | cons item rest ih =>
    obtain ⟨hitem, hrest⟩ := List.forall_mem_cons.mp hstep
    rcases runs_andThen_iff.mp hruns with ⟨_, s₁, hfirst, hmore⟩ | ⟨err, hfirst, -⟩
    · exact htrans (hitem hfirst) (ih hrest hmore)
    · exact hitem hfirst

/-- A loop whose steps can run from anywhere can run. -/
theorem exists_runs_forM {κ : Type} {step : κ → ExceptT ε Task PUnit} {items : List κ}
    (hstep : ∀ item ∈ items, ∀ s, ∃ s', (step item).run.Runs e s (.ok ()) s') (s : Storage) :
    ∃ s', (items.forM step).run.Runs e s (.ok ()) s' := by
  induction items generalizing s with
  | nil => exact ⟨s, runs_pure_iff.mpr ⟨rfl, rfl⟩⟩
  | cons item rest ih =>
    obtain ⟨hitem, hrest⟩ := List.forall_mem_cons.mp hstep
    obtain ⟨s₁, hfirst⟩ := hitem s
    obtain ⟨s', hmore⟩ := ih hrest s₁
    exact ⟨s', Runs.andThen hfirst hmore⟩

end Results

/-! ## Services -/

section Services

def Storage.set (s : Storage) (table : String) (rows : List Record) : Storage :=
  { s with db := s.db.set table rows }

theorem Storage.rows_set (s : Storage) (table t : String) (rows : List Record) :
    (s.set table rows).db.rows t = if t = table then rows else s.db.rows t := rfl

theorem runs_perform_map_iff {r : Effect} {f : r.Answer → α} {a : α} :
    ((Task.perform r).bind fun x => .done (f x)).Runs e s a s' ↔ ∃ x, Serves e s r x s' ∧ a = f x := by
  simp only [Task.runs_bind_iff, Task.runs_perform_iff, Task.runs_done_iff]
  constructor
  · rintro ⟨x, s', hserves, rfl, rfl⟩
    exact ⟨x, hserves, rfl⟩
  · rintro ⟨x, hserves, rfl⟩
    exact ⟨x, s', hserves, rfl, rfl⟩

/-- A statement answers as its query does, and a query that fails changes nothing. -/
theorem runs_execute_iff {sql : String} {q : Query} (hread : read? sql = some q) {params : List Value}
    {x : Except ServiceError (List Record)} :
    (Service.execute sql params).run.Runs e s x s' ↔
      (∃ rows db', q.run e params s.db = .ok (rows, db') ∧ x = .ok rows ∧ s' = { s with db := db' }) ∨
        ∃ err, q.run e params s.db = .error err ∧ x = .error (.database err) ∧ s' = s := by
  refine (runs_perform_map_iff (r := .execute ⟨sql, params⟩)).trans ?_
  constructor
  · rintro ⟨y, hserves, rfl⟩
    cases hserves with
    | execute =>
      obtain ⟨y, db', ha⟩ : ∃ y db', answer e ⟨sql, params⟩ s.db = (y, db') := ⟨_, _, rfl⟩
      rw [ha]
      rcases answer_of_read? hread ha with ⟨rows, rfl, hrun⟩ | ⟨err, rfl, hrun, rfl⟩
      · exact .inl ⟨rows, db', hrun, rfl, rfl⟩
      · exact .inr ⟨err, hrun, rfl, rfl⟩
  · rintro (⟨rows, db', hrun, rfl, rfl⟩ | ⟨err, hrun, rfl, rfl⟩)
    · exact ⟨.ok rows, .of_run hread hrun, rfl⟩
    · exact ⟨.error err, .of_run_error hread hrun, rfl⟩

theorem runs_execute_ok_iff {sql : String} {q : Query} (hread : read? sql = some q) {params : List Value}
    {rows : List Record} {db' : Database} (hrun : q.run e params s.db = .ok (rows, db'))
    {x : Except ServiceError (List Record)} :
    (Service.execute sql params).run.Runs e s x s' ↔ x = .ok rows ∧ s' = { s with db := db' } := by
  rw [runs_execute_iff hread, hrun]
  constructor
  · rintro (⟨rows, db', hrows, rfl, rfl⟩ | ⟨err, herr, -⟩)
    · cases hrows
      exact ⟨rfl, rfl⟩
    · cases herr
  · rintro ⟨rfl, rfl⟩
    exact .inl ⟨rows, db', rfl, rfl, rfl⟩

/-- A statement whose query answers as a computation does. -/
theorem runs_execute_map_iff {sql : String} {q : Query} (hread : read? sql = some q)
    {params : List Value} {y : Except DatabaseError α} {g : α → List Record × Database}
    (hrun : q.run e params s.db = y.map g) {x : Except ServiceError (List Record)} :
    (Service.execute sql params).run.Runs e s x s' ↔
      (∃ a, y = .ok a ∧ x = .ok (g a).1 ∧ s' = { s with db := (g a).2 }) ∨
        ∃ err, y = .error err ∧ x = .error (.database err) ∧ s' = s := by
  rw [runs_execute_iff hread, hrun]
  cases y with
  | error err => simp [Except.map]
  | ok a =>
    simp only [Except.map, Except.ok.injEq, exists_eq_left', reduceCtorEq, false_and, exists_false, or_false]
    constructor
    · rintro ⟨rows, db', heq, rfl, rfl⟩
      rw [heq]
      exact ⟨rfl, rfl⟩
    · rintro ⟨rfl, rfl⟩
      exact ⟨_, _, rfl, rfl, rfl⟩

/-- A statement that only reads. -/
theorem runs_read_iff {sql : String} {q : Query} (hread : read? sql = some q) {params : List Value}
    {y : Except DatabaseError (List Record)} (hrun : q.run e params s.db = y.map fun rows => (rows, s.db))
    {x : Except ServiceError (List Record)} :
    (Service.execute sql params).run.Runs e s x s' ↔ x = y.mapError .database ∧ s' = s := by
  rw [runs_execute_map_iff hread hrun]
  cases y with
  | error err =>
    change _ ↔ x = .error (.database err) ∧ _
    simp
  | ok rows =>
    change _ ↔ x = .ok rows ∧ _
    simp

theorem runs_freshId_iff {x : Except ServiceError Value} :
    Service.freshId.run.Runs e s x s' ↔
      ∃ id v, castUuid (.text id) = .ok v ∧ v ∉ s.issued ∧ x = .ok (.text id) ∧
        s' = { s with issued := v :: s.issued } := by
  refine (runs_perform_map_iff (r := .freshId)).trans ?_
  constructor
  · rintro ⟨id, hserves, rfl⟩
    cases hserves with
    | freshId hcast hnew => exact ⟨id, _, hcast, hnew, rfl, rfl⟩
  · rintro ⟨id, v, hcast, hnew, rfl, rfl⟩
    exact ⟨id, .freshId s hcast hnew, rfl⟩

theorem runs_putBlob_iff {path : String} {bytes : ByteArray} {x : Except ServiceError String} :
    (Service.putBlob path bytes).run.Runs e s x s' ↔
      x = (s.blobs.put path bytes).1.mapError .blob ∧ s' = { s with blobs := (s.blobs.put path bytes).2 } := by
  refine (runs_perform_map_iff (r := .putBlob path bytes)).trans ?_
  constructor
  · rintro ⟨y, hserves, rfl⟩
    cases hserves with
    | putBlob => exact ⟨rfl, rfl⟩
  · rintro ⟨rfl, rfl⟩
    exact ⟨_, .putBlob s path bytes, rfl⟩

theorem runs_putBlob {path : String} {bytes : ByteArray} {x : Except ServiceError String}
    (h : (Service.putBlob path bytes).run.Runs e s x s') : ∃ blobs, s' = { s with blobs } :=
  ⟨_, (runs_putBlob_iff.mp h).2⟩

theorem runs_getBlob_iff {path : String} {x : Except ServiceError (Option ByteArray)} :
    (Service.getBlob path).run.Runs e s x s' ↔ x = (s.blobs.get path).mapError .blob ∧ s' = s := by
  refine (runs_perform_map_iff (r := .getBlob path)).trans ?_
  constructor
  · rintro ⟨y, hserves, rfl⟩
    cases hserves with
    | getBlob => exact ⟨rfl, rfl⟩
  · rintro ⟨rfl, rfl⟩
    exact ⟨_, .getBlob s' path, rfl⟩

theorem runs_execute_blobs {sql : String} {params : List Value} {x : Except ServiceError (List Record)}
    (h : (Service.execute sql params).run.Runs e s x s') : ∃ db, s' = { s with db } := by
  obtain ⟨y, hserves, rfl⟩ := (runs_perform_map_iff (r := .execute ⟨sql, params⟩)).mp h
  cases hserves with
  | execute => exact ⟨_, rfl⟩

theorem runs_locateBlob_iff {uri : String} {x : Except ServiceError (Option String)} :
    (Service.locateBlob uri).run.Runs e s x s' ↔ x = .ok (s.blobs.locate uri) ∧ s' = s := by
  refine (runs_perform_map_iff (r := .locateBlob uri)).trans ?_
  constructor
  · rintro ⟨y, hserves, rfl⟩
    cases hserves with
    | locateBlob => exact ⟨rfl, rfl⟩
  · rintro ⟨rfl, rfl⟩
    exact ⟨_, .locateBlob s' uri, rfl⟩

theorem runs_orMissing_iff {found : Option α} {missing : String} {x : Except ServiceError α} :
    (Service.orMissing found missing).run.Runs e s x s' ↔
      s' = s ∧ ((∃ a, found = some a ∧ x = .ok a) ∨ found = none ∧ x = .error (.notFound missing)) := by
  cases found with
  | none =>
    have hthrow : (Service.orMissing (none : Option α) missing).run.Runs e s x s' ↔ _ := runs_throw_iff
    simp [hthrow, and_comm]
  | some a =>
    have hpure : (Service.orMissing (some a) missing).run.Runs e s x s' ↔ _ := runs_pure_iff
    simp [hpure, and_comm]

theorem runs_orMissing_eq_ok_iff {found : Option α} {missing : String} {a : α} :
    (Service.orMissing found missing).run.Runs e s (.ok a) s' ↔ found = some a ∧ s' = s := by
  cases found <;> simp [runs_orMissing_iff, and_comm, eq_comm]

theorem runs_first_iff {rows : List Record} {missing : String} {x : Except ServiceError Record} :
    (Service.first rows missing).run.Runs e s x s' ↔
      s' = s ∧ ((∃ row, rows.head? = some row ∧ x = .ok row) ∨
        rows = [] ∧ x = .error (.notFound missing)) := by
  rw [Service.first, runs_orMissing_iff, List.head?_eq_none_iff]

theorem runs_service_iff {m : Service α} {x : Except Refusal α} :
    (Handler.service m).run.Runs e s x s' ↔
      ∃ y, m.run.Runs e s y s' ∧ x = y.mapError fun err => .api err.toApi := by
  have hbind : (Handler.service m).run.Runs e s x s' ↔
      ∃ y s₁, m.run.Runs e s y s₁ ∧
        (Task.done (y.mapError fun err => Refusal.api err.toApi)).Runs e s₁ x s' := Task.runs_bind_iff
  simp only [hbind, Task.runs_done_iff]
  constructor
  · rintro ⟨y, s', hm, rfl, rfl⟩
    exact ⟨y, hm, rfl⟩
  · rintro ⟨y, hm, rfl⟩
    exact ⟨y, s', hm, rfl, rfl⟩

theorem runs_ofExcept_iff {y : Except ApiError α} {x : Except Refusal α} :
    (Handler.ofExcept y).run.Runs e s x s' ↔ x = y.mapError .api ∧ s' = s := by
  cases y with
  | ok a => exact runs_pure_iff
  | error err => exact runs_throw_iff

end Services
end JobTrail
