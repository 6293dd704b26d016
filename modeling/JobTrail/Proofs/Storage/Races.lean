import JobTrail.Proofs.Storage.Runs
import JobTrail.Proofs.Task.Scripts
import Mathlib.Algebra.BigOperators.Group.Finset.Piecewise

/-!
# Races

Several tasks on one storage, with their effects in any order. Each effect is done as a whole before the
next one, and nothing keeps the effects of one task together. A race is the same as a history that storage
can give and that looks to each task like a script of its own, so what holds after a race is found by
following the history, and what one task did is found in its part of it.
-/

namespace JobTrail

open Sql

/-- One exchange of the task at a place. -/
structure Turn where
  place : Nat
  exchange : Exchange

/-! ## Ways to answer -/

abbrev Storage.Behavior := Storage → (r : Effect) → r.Answer → Storage → Prop

/-- An exchange that storage can have in some state. -/
def Storage.Behavior.Gives (answers : Behavior) (x : Exchange) : Prop :=
  ∃ s s', answers s x.effect x.answer s'

def Effect.Succeeds : (r : Effect) → r.Answer → Prop
  | execute _, x => ∃ rows, x = .ok rows
  | putBlob .., x => ∃ uri, x = .ok uri
  | getBlob _, x => ∃ found, x = .ok found
  | freshId, _ | freshSalt, _ | locateBlob _, _ | lookUp _, _ => True

/-- Storage does what it is asked, and nothing of it fails. -/
def Storage.Obeys (e : Engine) : Storage.Behavior := fun s r x s' => Serves e s r x s' ∧ r.Succeeds x

/-- Storage that does what it is asked and keeps to a unique index. What would break the index fails as a
duplicate and changes nothing. -/
inductive Storage.Enforces (e : Engine) (index : Database → Prop) : Storage.Behavior where
  | obeys {s s' : Storage} {r : Effect} {x : r.Answer} :
      Obeys e s r x s' → index s'.db → Enforces e index s r x s'
  | refuses {s s' : Storage} {statement : Statement} {rows : List Record} (text : String) : index s.db →
      Obeys e s (.execute statement) (.ok rows) s' → ¬ index s'.db →
      Enforces e index s (.execute statement) (.error (.duplicate text)) s

/-! ## Races -/

variable {answers : Storage.Behavior} {e : Engine} {s s' s'' : Storage} {α β : Type}
  {place : Nat} {turn : Turn} {history before after : List Turn} {tasks : List (Task α)} {results : List α}

/-- The tasks run side by side until each has its result. -/
inductive Race (answers : Storage.Behavior) {α : Type} :
    Storage → List (Task α) → List Turn → Storage → List α → Prop where
  | ended (s : Storage) (results : List α) : Race answers s (results.map .done) [] s results
  | turn {s s' s'' : Storage} {tasks : List (Task α)} {place : Nat} {r : Effect}
      {next : r.Answer → Task α} {x : r.Answer} {history : List Turn} {results : List α} :
      tasks[place]? = some (.ask r next) → answers s r x s' →
      Race answers s' (tasks.set place (next x)) history s'' results →
      Race answers s tasks (⟨place, ⟨r, x⟩⟩ :: history) s'' results

/-! ## Histories -/

/-- Storage answers the turns of a history, one after the other. -/
inductive Along (answers : Storage.Behavior) : Storage → List Turn → Storage → Prop where
  | nil (s : Storage) : Along answers s [] s
  | cons {turn : Turn} {history : List Turn} {s s' s'' : Storage} :
      answers s turn.exchange.effect turn.exchange.answer s' → Along answers s' history s'' →
      Along answers s (turn :: history) s''

theorem along_append_iff :
    Along answers s (before ++ after) s'' ↔ ∃ s', Along answers s before s' ∧ Along answers s' after s'' := by
  induction before generalizing s with
  | nil =>
    constructor
    · intro h
      exact ⟨s, .nil s, h⟩
    · rintro ⟨s', hnil, h⟩
      cases hnil
      exact h
  | cons turn before ih =>
    constructor
    · intro h
      cases h with
      | cons hanswer hrest =>
        obtain ⟨s', hbefore, hafter⟩ := ih.mp hrest
        exact ⟨s', .cons hanswer hbefore, hafter⟩
    · rintro ⟨s', hcons, hafter⟩
      cases hcons with
      | cons hanswer hbefore => exact .cons hanswer (ih.mpr ⟨s', hbefore, hafter⟩)

theorem along_concat_iff :
    Along answers s (history ++ [turn]) s'' ↔
      ∃ s', Along answers s history s' ∧ answers s' turn.exchange.effect turn.exchange.answer s'' := by
  rw [along_append_iff]
  constructor
  · rintro ⟨s', hhistory, hturn⟩
    cases hturn with
    | cons hanswer hnil =>
      cases hnil
      exact ⟨s', hhistory, hanswer⟩
  · rintro ⟨s', hhistory, hanswer⟩
    exact ⟨s', hhistory, .cons hanswer (.nil s'')⟩

theorem Along.gives (h : Along answers s history s') (hturn : turn ∈ history) :
    answers.Gives turn.exchange := by
  obtain ⟨before, after, rfl⟩ := List.append_of_mem hturn
  obtain ⟨s₁, -, hafter⟩ := along_append_iff.mp h
  cases hafter with
  | cons hanswer _ => exact ⟨_, _, hanswer⟩

/-! ## The part of one task -/

/-- What the task at a place does in a history. -/
def turnsAt (place : Nat) (history : List Turn) : List Exchange :=
  (history.filter (·.place = place)).map (·.exchange)

@[simp] theorem turnsAt_nil (place : Nat) : turnsAt place [] = [] := rfl

theorem turnsAt_cons (place : Nat) (turn : Turn) (history : List Turn) :
    turnsAt place (turn :: history) =
      if turn.place = place then turn.exchange :: turnsAt place history else turnsAt place history := by
  unfold turnsAt
  by_cases h : turn.place = place <;> simp [h]

@[simp] theorem turnsAt_append (place : Nat) (before after : List Turn) :
    turnsAt place (before ++ after) = turnsAt place before ++ turnsAt place after := by
  simp [turnsAt]

theorem mem_turnsAt_iff {x : Exchange} : x ∈ turnsAt place history ↔ ⟨place, x⟩ ∈ history := by
  simp only [turnsAt, List.mem_map, List.mem_filter, decide_eq_true_eq]
  constructor
  · rintro ⟨turn, ⟨hmem, rfl⟩, rfl⟩
    exact hmem
  · intro hmem
    exact ⟨_, ⟨hmem, rfl⟩, rfl⟩

theorem exchange_mem_turnsAt (hturn : turn ∈ history) : turn.exchange ∈ turnsAt turn.place history :=
  mem_turnsAt_iff.mpr hturn

/-- Turns are counted task by task. -/
theorem countP_eq_sum_turnsAt (p : Exchange → Bool) {n : Nat} (h : ∀ turn ∈ history, turn.place < n) :
    history.countP (p ·.exchange) = ∑ place ∈ Finset.range n, (turnsAt place history).countP p := by
  induction history with
  | nil => simp
  | cons turn history ih =>
    obtain ⟨hturn, hrest⟩ := List.forall_mem_cons.mp h
    have hplace : ∀ place, (turnsAt place (turn :: history)).countP p =
        (turnsAt place history).countP p + if turn.place = place then (if p turn.exchange then 1 else 0) else 0 := by
      intro place
      rw [turnsAt_cons]
      split
      · exact List.countP_cons
      · rfl
    simp only [hplace, Finset.sum_add_distrib, Finset.sum_ite_eq, Finset.mem_range, if_pos hturn, ← ih hrest]
    exact List.countP_cons

/-! ## Races as histories -/

theorem Race.along (h : Race answers s tasks history s' results) : Along answers s history s' := by
  induction h with
  | ended s results => exact .nil s
  | turn _ hanswer _ ih => exact .cons hanswer ih

theorem Race.length_eq (h : Race answers s tasks history s' results) : results.length = tasks.length := by
  induction h with
  | ended s results => simp
  | turn _ _ _ ih => simpa using ih

theorem Race.place_lt (h : Race answers s tasks history s' results) :
    ∀ turn ∈ history, turn.place < tasks.length := by
  induction h with
  | ended s results => simp
  | turn htask _ _ ih =>
    rw [List.length_set] at ih
    exact List.forall_mem_cons.mpr ⟨(List.getElem?_eq_some_iff.mp htask).1, ih⟩

theorem Race.plays (h : Race answers s tasks history s' results) {task : Task α} {result : α}
    (htask : tasks[place]? = some task) (hresult : results[place]? = some result) :
    task.Plays (turnsAt place history) result := by
  induction h generalizing task with
  | ended s results =>
    rw [List.getElem?_map, hresult] at htask
    cases htask
    exact .done result
  | @turn _ _ _ tasks first _ next x history _ hfirst _ _ ih =>
    rw [turnsAt_cons]
    by_cases he : first = place
    · subst he
      rw [if_pos rfl]
      cases hfirst.symm.trans htask
      have hlt := (List.getElem?_eq_some_iff.mp hfirst).1
      exact .ask (ih (List.getElem?_set_self hlt) hresult)
    · rw [if_neg he]
      exact ih ((List.getElem?_set_ne he).trans htask) hresult

/-- A race is a history in which each task plays its own turns. -/
theorem race_iff :
    Race answers s tasks history s' results ↔
      Along answers s history s' ∧ results.length = tasks.length ∧
        (∀ turn ∈ history, turn.place < tasks.length) ∧
        ∀ (place : Nat) (task : Task α) (result : α), tasks[place]? = some task →
          results[place]? = some result → task.Plays (turnsAt place history) result := by
  constructor
  · intro h
    exact ⟨h.along, h.length_eq, h.place_lt, fun _ _ _ htask hresult => h.plays htask hresult⟩
  · -- The first turn is the first exchange of its own task, and the other tasks have the same turns without it.
    rintro ⟨halong, hlength, hplaces, hplays⟩
    induction history generalizing s tasks with
    | nil =>
      have htasks : tasks = results.map .done := by
        apply List.ext_getElem
        · rw [List.length_map, hlength]
        · intro place htask hresult
          rw [List.length_map] at hresult
          have hdone := hplays place _ _ (List.getElem?_eq_getElem htask) (List.getElem?_eq_getElem hresult)
          rw [List.getElem_map]
          generalize tasks[place] = task at hdone
          cases hdone
          rfl
      cases halong
      rw [htasks]
      exact .ended _ results
    | cons turn history ih =>
      obtain ⟨place, r, x⟩ := turn
      obtain ⟨hplace, hrest⟩ := List.forall_mem_cons.mp hplaces
      have htask := List.getElem?_eq_getElem hplace
      have hown := hplays place _ _ htask (List.getElem?_eq_getElem (hlength ▸ hplace))
      rw [turnsAt_cons, if_pos rfl] at hown
      generalize tasks[place] = task at htask hown
      cases halong with
      | cons hanswer halong =>
        cases hown with
        | @ask _ next _ _ _ hnext =>
          refine .turn htask hanswer (ih halong ?_ ?_ ?_)
          · rw [List.length_set, hlength]
          · rwa [List.length_set]
          · intro other task' result htask' hresult
            by_cases he : place = other
            · subst he
              rw [List.getElem?_set_self hplace] at htask'
              cases htask'
              cases hresult.symm.trans (List.getElem?_eq_getElem (hlength ▸ hplace))
              exact hnext
            · rw [List.getElem?_set_ne he] at htask'
              have hother := hplays other task' result htask' hresult
              rwa [turnsAt_cons, if_neg he] at hother

/-! ## Races of calls -/

section Calls

variable {γ : Type} {calls : List γ} {call : γ} {f : γ → Task α}

theorem Race.exists_call (h : Race answers s (calls.map f) history s' results) (hturn : turn ∈ history) :
    ∃ call, calls[turn.place]? = some call := by
  have hplace := h.place_lt turn hturn
  rw [List.length_map] at hplace
  exact ⟨_, List.getElem?_eq_getElem hplace⟩

/-- Each call has a result, and a script with exchanges that storage can have. -/
theorem Race.exists_result (h : Race answers s (calls.map f) history s' results)
    (hcall : calls[place]? = some call) :
    ∃ result, results[place]? = some result ∧ (f call).Plays (turnsAt place history) result ∧
      ∀ x ∈ turnsAt place history, answers.Gives x := by
  have hplace := (List.getElem?_eq_some_iff.mp hcall).1
  have hlength := h.length_eq
  rw [List.length_map] at hlength
  refine ⟨_, List.getElem?_eq_getElem (hlength ▸ hplace), h.plays ?_ (List.getElem?_eq_getElem _), ?_⟩
  · rw [List.getElem?_map, hcall]
    rfl
  · intro x hx
    exact h.along.gives (mem_turnsAt_iff.mp hx)

end Calls

/-! ## Two tasks in turn -/

section InStep

variable {first second : List Exchange}

/-- The first exchanges of two tasks, then their second ones, and so on. -/
def inStep : List Exchange → List Exchange → List Turn
  | x :: first, y :: second => ⟨0, x⟩ :: ⟨1, y⟩ :: inStep first second
  | _, _ => []

theorem turnsAt_inStep (h : first.length = second.length) :
    turnsAt 0 (inStep first second) = first ∧ turnsAt 1 (inStep first second) = second := by
  induction first generalizing second with
  | nil =>
    cases second with
    | nil => exact ⟨rfl, rfl⟩
    | cons y second => cases h
  | cons x first ih =>
    cases second with
    | nil => cases h
    | cons y second =>
      obtain ⟨hfirst, hsecond⟩ := ih (Nat.succ.inj h)
      simp [inStep, turnsAt_cons, hfirst, hsecond]

theorem place_lt_of_mem_inStep (h : turn ∈ inStep first second) : turn.place < 2 := by
  induction first generalizing second with
  | nil => cases h
  | cons x first ih =>
    cases second with
    | nil => cases h
    | cons y second =>
      rw [inStep, List.mem_cons, List.mem_cons] at h
      rcases h with rfl | rfl | hrest
      · exact Nat.zero_lt_two
      · exact Nat.one_lt_two
      · exact ih hrest

theorem race_inStep {task task' : Task α} {result result' : α} (hlength : first.length = second.length)
    (halong : Along answers s (inStep first second) s') (hplays : task.Plays first result)
    (hplays' : task'.Plays second result') :
    Race answers s [task, task'] (inStep first second) s' [result, result'] := by
  obtain ⟨hfirst, hsecond⟩ := turnsAt_inStep hlength
  refine race_iff.mpr ⟨halong, rfl, fun turn hturn => place_lt_of_mem_inStep hturn, ?_⟩
  intro place t x ht hx
  rcases place with _ | _ | place
  · cases ht
    cases hx
    rw [hfirst]
    exact hplays
  · cases ht
    cases hx
    rw [hsecond]
    exact hplays'
  · cases ht

end InStep

/-! ## Services on storage that does not fail -/

section Obeys

variable {sql : String} {params : List Value}

theorem Storage.Obeys.runs {x : Except DatabaseError (List Record)}
    (h : Obeys e s (.execute ⟨sql, params⟩) x s') :
    ∃ rows, x = .ok rows ∧ (Service.execute sql params).run.Runs e s (.ok rows) s' := by
  obtain ⟨hserves, rows, rfl⟩ := h
  exact ⟨rows, rfl, (runs_perform_map_iff (r := .execute ⟨sql, params⟩)).mpr ⟨.ok rows, hserves, rfl⟩⟩

theorem Storage.obeys_of_runs {rows : List Record}
    (h : (Service.execute sql params).run.Runs e s (.ok rows) s') :
    Obeys e s (.execute ⟨sql, params⟩) (.ok rows) s' := by
  obtain ⟨x, hserves, hx⟩ := (runs_perform_map_iff (r := .execute ⟨sql, params⟩)).mp h
  cases x with
  | ok rows' =>
    cases hx
    exact ⟨hserves, rows, rfl⟩
  | error err => cases hx

theorem Storage.obeys_execute_iff {q : Query} (hread : read? sql = some q)
    {x : Except DatabaseError (List Record)} :
    Obeys e s (.execute ⟨sql, params⟩) x s' ↔
      ∃ rows db', q.run e params s.db = .ok (rows, db') ∧ x = .ok rows ∧ s' = { s with db := db' } := by
  constructor
  · intro h
    obtain ⟨rows, rfl, hruns⟩ := h.runs
    rcases (runs_execute_iff hread).mp hruns with ⟨rows', db', hrun, hrows, rfl⟩ | ⟨_, -, herr, -⟩
    · cases hrows
      exact ⟨rows, db', hrun, rfl, rfl⟩
    · cases herr
  · rintro ⟨rows, db', hrun, rfl, rfl⟩
    exact obeys_of_runs ((runs_execute_iff hread).mpr (.inl ⟨rows, db', hrun, rfl, rfl⟩))

theorem Storage.Obeys.freshId {id : String} (h : Obeys e s .freshId id s') : s'.db = s.db := by
  obtain ⟨hserves, -⟩ := h
  cases hserves
  rfl

/-- A statement of a call is answered, and the call goes on. -/
theorem Task.Plays.execute_andThen {f : List Record → Service β} {script : List Exchange}
    {x : Except ServiceError β} (hplays : (Service.execute sql params >>= f).run.Plays script x)
    (hgives : ∀ x ∈ script, (Storage.Obeys e).Gives x) :
    ∃ rows rest, script = ⟨.execute ⟨sql, params⟩, .ok rows⟩ :: rest ∧ (f rows).run.Plays rest x ∧
      (∃ s s', Storage.Obeys e s (.execute ⟨sql, params⟩) (.ok rows) s') ∧
        ∀ x ∈ rest, (Storage.Obeys e).Gives x := by
  rcases Task.plays_execute_andThen_iff.mp hplays with ⟨rows, rest, rfl, hrest⟩ | ⟨err, rfl, -⟩
  · obtain ⟨hfirst, hlast⟩ := List.forall_mem_cons.mp hgives
    exact ⟨rows, rest, rfl, hrest, hfirst, hlast⟩
  · obtain ⟨s, s', -, rows, hrows⟩ := hgives _ (List.mem_singleton_self _)
    cases hrows

end Obeys

/-! ## Statements by their text -/

/-- The exchange is a statement with this text. -/
def Exchange.executes (sql : String) (x : Exchange) : Bool :=
  match x.effect with
  | .execute statement => statement.sql = sql
  | _ => false

@[simp] theorem Exchange.executes_execute (sql : String) (statement : Statement)
    (x : Except DatabaseError (List Record)) :
    (⟨.execute statement, x⟩ : Exchange).executes sql = decide (statement.sql = sql) := rfl

@[simp] theorem Exchange.executes_freshId (sql id : String) :
    (⟨.freshId, id⟩ : Exchange).executes sql = false := rfl

end JobTrail
