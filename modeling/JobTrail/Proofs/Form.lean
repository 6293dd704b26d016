import JobTrail.Form

/-!
# What a form demands

A form notes messages as it goes and never takes one back. `Demands form P` says that it leaves the
errors empty exactly when they were empty before and the body satisfies `P`; a form that is put together
from checks demands what its checks demand.
-/

namespace JobTrail

theorem FieldErrors.note_ne_nil (errors : FieldErrors) (key message : String) :
    errors.note key message ≠ [] := by
  cases errors with
  | nil => simp [note]
  | cons e rest =>
    obtain ⟨k, m⟩ := e
    simp only [note]
    split
    · simp
    · split <;> simp

def Rule.Accepts {α : Type} (rule : Rule α) (field : Option Value) : Prop := (rule field).isSome

namespace Form

variable {α β : Type} {form : Form α} {P Q : Value → Prop}

/-- A run is what the form leaves when nothing was noted before it. -/
theorem run_eq (form : Form α) (body : Value) :
    form.run body
      = if (form body []).2 = [] then .ok (form body []).1
        else .error (.validation "Validation failed" (some (form body []).2)) := by
  rw [run]
  generalize form body [] = result
  obtain ⟨a, errors⟩ := result
  cases errors with
  | nil => rfl
  | cons e rest => rw [if_neg (List.cons_ne_nil e rest)]

/-- The form notes nothing exactly on the bodies that satisfy `P`. -/
def Demands (form : Form α) (P : Value → Prop) : Prop :=
  ∀ body errors, (form body errors).2 = [] ↔ errors = [] ∧ P body

theorem demands_pure (a : α) : Demands (pure a) fun _ => True := by
  intro body errors
  simp [pure]

theorem demands_check (rule : Rule α) (key message : String) :
    Demands (check rule key message) fun body => rule.Accepts (body.get? key) := by
  intro body errors
  simp only [check, Rule.Accepts]
  cases hrule : rule (body.get? key) with
  | some v => simp
  | none => simp [FieldErrors.note_ne_nil]

theorem Demands.bind {next : α → Form β} (first : form.Demands P) (rest : ∀ a, (next a).Demands Q) :
    (form >>= next).Demands fun body => P body ∧ Q body := by
  intro body errors
  have hrest := rest (form body errors).1 body (form body errors).2
  exact hrest.trans (by rw [first body errors, and_assoc])

/-- A form succeeds on what it demands and on nothing else. -/
theorem Demands.run_eq_ok_iff {form : Form Unit} (h : form.Demands P) (body : Value) :
    form.run body = .ok () ↔ P body := by
  have hempty := h body []
  simp only [true_and] at hempty
  rw [← hempty, run_eq]
  by_cases hquiet : (form body []).2 = [] <;> simp [hquiet]

end Form
end JobTrail
