import JobTrail.Application.Endpoints
import JobTrail.Checklist.Endpoints
import JobTrail.Company.Endpoints
import JobTrail.Proofs.Form
import JobTrail.Resume.Endpoints
import JobTrail.User.Endpoints

/-!
# What the forms check

The checks of each form as a list of keys with what is accepted there, apart from the order in which a
form runs them and from the messages it notes. A form accepts a body exactly when every check of its
list accepts, and a form for a draft then has the draft: a required rule never accepts without a value.
-/

namespace JobTrail

/-! ## Lists of checks -/

structure Check where
  key : String
  Accepts : Option Value → Prop

def Check.of {α : Type} (key : String) (rule : Rule α) : Check := ⟨key, rule.Accepts⟩

def Passes (checks : List Check) (body : Value) : Prop := ∀ c ∈ checks, c.Accepts (body.get? c.key)

section Lists

variable {α β : Type} {rule : Rule α} {checks : List Check} {body : Value} {key : String}

theorem passes_nil : Passes [] body := by
  intro c hc
  cases hc

theorem passes_cons_iff :
    Passes (.of key rule :: checks) body ↔ rule.Accepts (body.get? key) ∧ Passes checks body := by
  simp only [Passes, List.forall_mem_cons]
  rfl

end Lists

namespace Form

variable {α β : Type} {checks : List Check} {body : Value}

def Tests (form : Form α) (checks : List Check) : Prop := form.Demands (Passes checks)

theorem tests_pure (a : α) : (pure a : Form α).Tests [] := by
  intro body errors
  rw [demands_pure a body errors]
  simp [passes_nil]

theorem Tests.check {rule : Rule α} {key message : String} {next : Option α → Form β}
    (h : ∀ a, (next a).Tests checks) :
    (Form.check rule key message >>= next).Tests (.of key rule :: checks) := by
  intro body errors
  rw [passes_cons_iff]
  exact (demands_check rule key message).bind h body errors

theorem tests_check (rule : Rule α) (key message : String) :
    (Form.check rule key message).Tests [.of key rule] := by
  intro body errors
  rw [demands_check rule key message body errors, passes_cons_iff]
  simp [passes_nil]

/-- A part that notes nothing is no check. -/
theorem Tests.reading {form : Form α} {next : α → Form β}
    (hform : ∀ body errors, (form body errors).2 = errors) (h : ∀ a, (next a).Tests checks) :
    (form >>= next).Tests checks := by
  intro body errors
  have hnext := h (form body errors).1 body (form body errors).2
  rw [hform body errors] at hnext
  rw [← hnext]
  exact iff_of_eq (congrArg (fun e => (next (form body errors).1 body e).2 = []) (hform body errors))

theorem filledText_quiet (key : String) (body : Value) (errors : FieldErrors) :
    (filledText key body errors).2 = errors := rfl

theorem text_quiet (key : String) (body : Value) (errors : FieldErrors) :
    (text key body errors).2 = errors := rfl

theorem Tests.accepts_iff {form : Form α} (h : form.Tests checks) (body : Value) :
    (∃ a, form.run body = .ok a) ↔ Passes checks body := by
  have hempty := h body []
  simp only [true_and] at hempty
  rw [← hempty, run_eq]
  by_cases hquiet : (form body []).2 = [] <;> simp [hquiet]

end Form

/-! ## Rules that give a value -/

namespace Rule

variable {α : Type} {rule : Rule α} {field : Option Value}

def IsRequired (rule : Rule α) : Prop := ∀ field, rule field ≠ some none

theorem found_ne (v : Option α) : found v ≠ some none := by
  cases v <;> simp [found]

theorem requiredText_isRequired : requiredText.IsRequired := fun _ => found_ne _

theorem oneOf_isRequired (allowed : List String) : (oneOf allowed).IsRequired := fun _ => found_ne _

theorem IsRequired.exists_of_accepts (hrule : rule.IsRequired) (h : rule.Accepts field) :
    ∃ a, rule field = some (some a) := by
  obtain ⟨v, hv⟩ := Option.isSome_iff_exists.mp h
  cases v with
  | none => exact absurd hv (hrule field)
  | some a => exact ⟨a, hv⟩

end Rule

/-! ## Forms that give a draft -/

namespace Form

variable {α β : Type} {checks : List Check}

/-- A form that has a value for every body that passes. -/
def Completes (form : Form (Option α)) (checks : List Check) : Prop :=
  ∀ body errors, Passes checks body → ∃ a, (form body errors).1 = some a

theorem completes_some (a : α) : (pure (some a) : Form (Option α)).Completes [] := by
  intro body errors _
  exact ⟨a, rfl⟩

theorem check_of_eq_some {rule : Rule α} {key : String} {body : Value} {v : Option α}
    (h : rule (body.get? key) = some v) (message : String) (errors : FieldErrors) :
    check rule key message body errors = (v, errors) := by
  simp only [check, h]

theorem Completes.required {rule : Rule α} {key message : String} {next : Option α → Form (Option β)}
    (hrule : rule.IsRequired) (h : ∀ a, (next (some a)).Completes checks) :
    (check rule key message >>= next).Completes (.of key rule :: checks) := by
  intro body errors hpasses
  obtain ⟨haccepts, hrest⟩ := passes_cons_iff.mp hpasses
  obtain ⟨a, ha⟩ := hrule.exists_of_accepts haccepts
  have hcheck := check_of_eq_some ha message errors
  obtain ⟨b, hb⟩ := h a body errors hrest
  refine ⟨b, ?_⟩
  rw [← hb]
  exact congrArg (fun x : Option α × FieldErrors => (next x.1 body x.2).1) hcheck

theorem Completes.allowed {rule : Rule α} {key message : String} {next : Option α → Form (Option β)}
    (h : ∀ v, (next v).Completes checks) :
    (check rule key message >>= next).Completes (.of key rule :: checks) := by
  intro body errors hpasses
  exact h _ body _ (passes_cons_iff.mp hpasses).2

theorem Completes.reading {form : Form α} {next : α → Form (Option β)}
    (h : ∀ a, (next a).Completes checks) :
    (form >>= next).Completes checks := by
  intro body errors hpasses
  exact h _ body _ hpasses

theorem exists_some_iff {form : Form (Option α)} (htests : form.Tests checks)
    (hcompletes : form.Completes checks) (body : Value) :
    (∃ a, form.run body = .ok (some a)) ↔ Passes checks body := by
  constructor
  · rintro ⟨a, h⟩
    exact (htests.accepts_iff body).mp ⟨_, h⟩
  · intro h
    obtain ⟨a, ha⟩ := hcompletes body [] h
    have hnone := (htests body []).mpr ⟨rfl, h⟩
    exact ⟨a, by rw [run_eq, if_pos hnone, ha]⟩

end Form

/-! ## The forms -/

namespace Application

def draftChecks : List Check :=
  [.of "company" Rule.requiredText, .of "role" Rule.requiredText, .of "location" Rule.requiredText,
    .of "status" (Rule.oneOf statuses), .of "appliedDate" Rule.requiredText]

def patchChecks : List Check := [.of "status" (Rule.optionalOneOf statuses)]

theorem draftForm_tests : draftForm.Tests draftChecks :=
  .check fun _ => .check fun _ => .check fun _ => .check fun _ => .check fun _ =>
    .reading (Form.filledText_quiet _) fun _ => .reading (Form.filledText_quiet _) fun _ =>
      Form.tests_pure _

theorem draftForm_completes : draftForm.Completes draftChecks :=
  .required Rule.requiredText_isRequired fun _ => .required Rule.requiredText_isRequired fun _ =>
    .required Rule.requiredText_isRequired fun _ => .required (Rule.oneOf_isRequired _) fun _ =>
      .required Rule.requiredText_isRequired fun _ => .reading fun _ => .reading fun _ =>
        Form.completes_some _

theorem patchForm_tests : patchForm.Tests patchChecks := .check fun _ => Form.tests_pure _

end Application

namespace Checklist

def draftChecks : List Check :=
  [.of "companyId" Rule.requiredText, .of "title" Rule.requiredText,
    .of "category" (Rule.oneOf categories), .of "completed" Rule.optionalFlag]

def patchChecks : List Check := [.of "category" (Rule.optionalOneOf categories)]

theorem draftForm_tests : draftForm.Tests draftChecks :=
  .check fun _ => .check fun _ => .check fun _ => .check fun _ =>
    .reading (Form.filledText_quiet _) fun _ => Form.tests_pure _

theorem draftForm_completes : draftForm.Completes draftChecks :=
  .required Rule.requiredText_isRequired fun _ => .required Rule.requiredText_isRequired fun _ =>
    .required (Rule.oneOf_isRequired _) fun _ => .allowed fun _ => .reading fun _ => Form.completes_some _

theorem patchForm_tests : patchForm.Tests patchChecks := .check fun _ => Form.tests_pure _

end Checklist

namespace Company

def draftChecks : List Check := [.of "name" Rule.requiredText]

theorem draftForm_tests : draftForm.Tests draftChecks :=
  .check fun _ => .reading (Form.text_quiet _) fun _ => .reading (Form.text_quiet _) fun _ =>
    .reading (Form.text_quiet _) fun _ => .reading (fun _ _ => rfl) fun _ => Form.tests_pure _

theorem draftForm_completes : draftForm.Completes draftChecks :=
  .required Rule.requiredText_isRequired fun _ => .reading fun _ => .reading fun _ => .reading fun _ =>
    .reading fun _ => Form.completes_some _

end Company

namespace User

def patchChecks : List Check :=
  [.of "name" Rule.optionalText, .of "university" Rule.optionalText, .of "major" Rule.optionalText,
    .of "graduationYear" (Rule.optionalIntRange 2020 2030), .of "weeklyGoal" (Rule.optionalIntRange 1 20)]

def targetsChecks : List Check :=
  [.of "targetCompanies" Rule.optionalTexts, .of "targetRoles" Rule.optionalTexts,
    .of "targetIndustries" Rule.optionalTexts, .of "targetLocations" Rule.optionalTexts]

theorem patchForm_tests : patchForm.Tests patchChecks :=
  .check fun _ => .check fun _ => .check fun _ => .check fun _ => .check fun _ => Form.tests_pure _

theorem targetsForm_tests : targetsForm.Tests targetsChecks :=
  .check fun _ => .check fun _ => .check fun _ => .check fun _ => Form.tests_pure _

end User

namespace Resume

def draftChecks : List Check :=
  [.of "name" Rule.requiredText, .of "fileName" Rule.requiredText, .of "fileUri" Rule.requiredText,
    .of "isPrimary" Rule.optionalFlag]

def uploadChecks : List Check := [.of "name" Rule.requiredText, .of "isPrimary" Rule.optionalFlag]

def patchChecks : List Check := [.of "name" Rule.optionalText, .of "isPrimary" Rule.optionalFlag]

theorem draftForm_tests : draftForm.Tests draftChecks :=
  .check fun _ => .check fun _ => .check fun _ => .check fun _ => Form.tests_pure _

theorem draftForm_completes : draftForm.Completes draftChecks :=
  .required Rule.requiredText_isRequired fun _ => .required Rule.requiredText_isRequired fun _ =>
    .required Rule.requiredText_isRequired fun _ => .allowed fun _ => Form.completes_some _

theorem uploadForm_tests : uploadForm.Tests uploadChecks :=
  .check fun _ => .check fun _ => Form.tests_pure _

theorem uploadForm_completes : uploadForm.Completes uploadChecks :=
  .required Rule.requiredText_isRequired fun _ => .allowed fun _ => Form.completes_some _

theorem patchForm_tests : patchForm.Tests patchChecks := .check fun _ => .check fun _ => Form.tests_pure _

end Resume

namespace Tailored

def draftChecks : List Check :=
  [.of "originalResumeId" Rule.requiredText, .of "jobDescription" Rule.requiredText,
    .of "companyName" Rule.requiredText, .of "positionTitle" Rule.requiredText]

def statusChecks : List Check := [.of "processingStatus" (Rule.optionalOneOf statuses)]

theorem draftForm_tests : draftForm.Tests draftChecks :=
  .check fun _ => .check fun _ => .check fun _ => .check fun _ => Form.tests_pure _

theorem draftForm_completes : draftForm.Completes draftChecks :=
  .required Rule.requiredText_isRequired fun _ => .required Rule.requiredText_isRequired fun _ =>
    .required Rule.requiredText_isRequired fun _ => .required Rule.requiredText_isRequired fun _ =>
      Form.completes_some _

theorem statusForm_tests : statusForm.Tests statusChecks := Form.tests_check _ _ _

end Tailored
end JobTrail
