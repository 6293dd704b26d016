import JobTrail.Service

/-!
# Scripts

What a task and the world around it say to each other: the effects that the task asks for, in order, with
the answers that it gets. Nothing is assumed of the answers, so a statement about all scripts of a task
holds whatever storage replies. Work on the result of a task that asks for nothing leaves its scripts as
they are.
-/

namespace JobTrail

structure Exchange where
  effect : Effect
  answer : effect.Answer

namespace Task

variable {α β γ ε : Type} {script : List Exchange}

/-- The task ends with a result if the world answers as the script says. -/
inductive Plays {α : Type} : Task α → List Exchange → α → Prop where
  | done (a : α) : Plays (.done a) [] a
  | ask {r : Effect} {next : r.Answer → Task α} {x : r.Answer} {script : List Exchange} {a : α} :
      Plays (next x) script a → Plays (.ask r next) (⟨r, x⟩ :: script) a

theorem plays_done_iff {a b : α} : (done a).Plays script b ↔ script = [] ∧ b = a := by
  constructor
  · intro h
    cases h
    exact ⟨rfl, rfl⟩
  · rintro ⟨rfl, rfl⟩
    exact .done _

theorem plays_bind_iff {t : Task α} {f : α → Task β} {b : β} :
    (t.bind f).Plays script b ↔
      ∃ first rest a, script = first ++ rest ∧ t.Plays first a ∧ (f a).Plays rest b := by
  induction t generalizing script with
  | done a =>
    constructor
    · intro h
      exact ⟨[], script, a, rfl, .done a, h⟩
    · rintro ⟨first, rest, a', rfl, hdone, h⟩
      obtain ⟨rfl, rfl⟩ := plays_done_iff.mp hdone
      exact h
  | ask r next ih =>
    constructor
    · intro h
      cases h with
      | ask hnext =>
        obtain ⟨first, rest, a, rfl, hfirst, hrest⟩ := (ih _).mp hnext
        exact ⟨_ :: first, rest, a, rfl, .ask hfirst, hrest⟩
    · rintro ⟨first, rest, a, rfl, hask, hrest⟩
      cases hask with
      | ask hfirst => exact .ask ((ih _).mpr ⟨_, rest, a, rfl, hfirst, hrest⟩)

theorem plays_perform_iff {r : Effect} {f : r.Answer → α} {a : α} :
    ((perform r).bind fun x => done (f x)).Plays script a ↔ ∃ x, script = [⟨r, x⟩] ∧ a = f x := by
  constructor
  · intro h
    cases h with
    | ask hrest =>
      obtain ⟨rfl, rfl⟩ := plays_done_iff.mp hrest
      exact ⟨_, rfl, rfl⟩
  · rintro ⟨x, rfl, rfl⟩
    exact .ask (.done _)

theorem plays_run_bind_iff {m : ExceptT ε Task α} {f : α → ExceptT ε Task β} {x : Except ε β} :
    (m >>= f).run.Plays script x ↔ ∃ first rest y, script = first ++ rest ∧ m.run.Plays first y ∧
      (ExceptT.bindCont f y).Plays rest x := plays_bind_iff

/-- What comes after an error is not asked. -/
theorem plays_andThen_iff {m : ExceptT ε Task α} {f : α → ExceptT ε Task β} {x : Except ε β} :
    (m >>= f).run.Plays script x ↔
      (∃ first rest a, script = first ++ rest ∧ m.run.Plays first (.ok a) ∧ (f a).run.Plays rest x) ∨
        ∃ err, m.run.Plays script (.error err) ∧ x = .error err := by
  rw [plays_run_bind_iff]
  constructor
  · rintro ⟨first, rest, y, rfl, hm, hf⟩
    cases y with
    | ok a => exact .inl ⟨first, rest, a, rfl, hm, hf⟩
    | error err =>
      obtain ⟨rfl, rfl⟩ := plays_done_iff.mp hf
      exact .inr ⟨err, by simpa using hm, rfl⟩
  · rintro (⟨first, rest, a, rfl, hm, hf⟩ | ⟨err, hm, rfl⟩)
    · exact ⟨first, rest, .ok a, rfl, hm, hf⟩
    · exact ⟨script, [], .error err, by simp, hm, .done _⟩

/-! ## Scripts of services -/

section Services

variable {sql : String} {params : List Value} {x : Except ServiceError β}

theorem plays_execute_iff {y : Except ServiceError (List Record)} :
    (Service.execute sql params).run.Plays script y ↔
      ∃ x, script = [⟨.execute ⟨sql, params⟩, x⟩] ∧ y = x.mapError .database :=
  plays_perform_iff (r := .execute ⟨sql, params⟩)

theorem plays_execute_andThen_iff {f : List Record → Service β} :
    (Service.execute sql params >>= f).run.Plays script x ↔
      (∃ rows rest, script = ⟨.execute ⟨sql, params⟩, .ok rows⟩ :: rest ∧ (f rows).run.Plays rest x) ∨
        ∃ err, script = [⟨.execute ⟨sql, params⟩, .error err⟩] ∧ x = .error (.database err) := by
  rw [plays_andThen_iff]
  simp only [plays_execute_iff]
  constructor
  · rintro (⟨_, rest, rows, rfl, ⟨y, rfl, hy⟩, hf⟩ | ⟨err, ⟨y, rfl, hy⟩, rfl⟩)
    · cases y with
      | ok rows =>
        cases hy
        exact .inl ⟨rows, rest, rfl, hf⟩
      | error err => cases hy
    · cases y with
      | ok rows => cases hy
      | error err =>
        cases hy
        exact .inr ⟨err, rfl, rfl⟩
  · rintro (⟨rows, rest, rfl, hf⟩ | ⟨err, rfl, rfl⟩)
    · exact .inl ⟨_, rest, rows, rfl, ⟨.ok rows, rfl, rfl⟩, hf⟩
    · exact .inr ⟨_, ⟨.error err, rfl, rfl⟩, rfl⟩

theorem plays_freshId_andThen_iff {f : Value → Service β} :
    (Service.freshId >>= f).run.Plays script x ↔
      ∃ id rest, script = ⟨.freshId, id⟩ :: rest ∧ (f (.text id)).run.Plays rest x := by
  constructor
  · intro h
    cases h with
    | ask hrest => exact ⟨_, _, rfl, hrest⟩
  · rintro ⟨id, rest, rfl, hrest⟩
    exact .ask hrest

theorem plays_first_iff {rows : List Record} {missing : String} {y : Except ServiceError Record} :
    (Service.first rows missing).run.Plays script y ↔
      script = [] ∧ ((∃ row, rows.head? = some row ∧ y = .ok row) ∨
        rows = [] ∧ y = .error (.notFound missing)) := by
  cases rows with
  | nil =>
    have hthrow : (Service.first [] missing).run.Plays script y ↔ _ := plays_done_iff
    simp [hthrow]
  | cons row rest =>
    have hpure : (Service.first (row :: rest) missing).run.Plays script y ↔ _ := plays_done_iff
    simp [hpure]

end Services

/-! ## Tasks with the same scripts -/

def SameScripts (t : Task α) (t' : Task β) : Prop :=
  ∀ script, (∃ a, t.Plays script a) ↔ ∃ b, t'.Plays script b

theorem SameScripts.symm {t : Task α} {t' : Task β} (h : SameScripts t t') : SameScripts t' t :=
  fun script => (h script).symm

theorem SameScripts.trans {t : Task α} {t' : Task β} {t'' : Task γ} (h : SameScripts t t')
    (h' : SameScripts t' t'') : SameScripts t t'' := fun script => (h script).trans (h' script)

/-- What goes on without asking adds nothing to a script. -/
theorem sameScripts_bind {t : Task α} {f : α → Task β} (h : ∀ a, ∃ b, f a = done b) :
    SameScripts (t.bind f) t := by
  intro script
  constructor
  · rintro ⟨b, hplays⟩
    obtain ⟨first, rest, a, rfl, ht, hf⟩ := plays_bind_iff.mp hplays
    obtain ⟨b', hb'⟩ := h a
    rw [hb'] at hf
    obtain ⟨rfl, -⟩ := plays_done_iff.mp hf
    exact ⟨a, by simpa using ht⟩
  · rintro ⟨a, ht⟩
    obtain ⟨b, hb⟩ := h a
    refine ⟨b, plays_bind_iff.mpr ⟨script, [], a, by simp, ht, ?_⟩⟩
    rw [hb]
    exact .done b

theorem sameScripts_andThen {m : ExceptT ε Task α} {f : α → ExceptT ε Task β}
    (h : ∀ a, ∃ x, (f a).run = done x) : SameScripts (m >>= f).run m.run := by
  apply sameScripts_bind (f := ExceptT.bindCont f)
  rintro (err | a)
  · exact ⟨.error err, rfl⟩
  · exact h a

end Task
end JobTrail
