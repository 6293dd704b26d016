import JobTrail.Proofs.Form.Sequences

/-!
# Forms that never stay without a draft

A handler that asks a form for a draft has an answer ready for a form that accepts a body and gives nothing.
No form does: the checks of a draft that have to be there give a value whenever they accept, and the others
are not needed for it. So what a body fails on is always told field by field.
-/

namespace JobTrail

namespace User

def signupChecks : List Check :=
  [.of "name" Rule.requiredText, .of "email" Rule.email, .of "password" (Rule.minLength minPasswordLength),
    .of "university" Rule.requiredText, .of "major" Rule.requiredText,
    .of "graduationYear" (Rule.intRange 2020 2030), .of "weeklyGoal" (Rule.optionalIntRange 1 20)]

def loginChecks : List Check := [.of "email" Rule.email, .of "password" (Rule.minLength 1)]

theorem signupForm_tests : signupForm.Tests signupChecks :=
  .check fun _ => .check fun _ => .check fun _ => .check fun _ => .check fun _ => .check fun _ =>
    .check fun _ => .reading (Form.filledText_quiet _) fun _ => Form.tests_pure _

theorem signupForm_completes : signupForm.Completes signupChecks :=
  .required Rule.requiredText_isRequired fun _ => .required (fun _ => Rule.found_ne _) fun _ =>
    .required (fun _ => Rule.found_ne _) fun _ => .required Rule.requiredText_isRequired fun _ =>
      .required Rule.requiredText_isRequired fun _ => .required (fun _ => Rule.found_ne _) fun _ =>
        .allowed fun _ => .reading fun _ => Form.completes_some _

theorem loginForm_tests : loginForm.Tests loginChecks :=
  .check fun _ => .check fun _ => Form.tests_pure _

theorem loginForm_completes : loginForm.Completes loginChecks :=
  .required (fun _ => Rule.found_ne _) fun _ => .required (fun _ => Rule.found_ne _) fun _ =>
    Form.completes_some _

end User

/-! ## The drafts of the handlers -/

/-- What handlers ask forms for. -/
inductive Drafting where
  | application
  | checklistItem
  | company
  | resume
  | upload
  | tailoring
  | signup
  | login
deriving DecidableEq, Repr

namespace Drafting

abbrev Draft : Drafting → Type
  | application => Application.Draft
  | checklistItem => Checklist.Draft
  | company => Company.Draft
  | resume => Resume.Draft
  | upload => String × Bool
  | tailoring => Tailored.Draft
  | signup => User.Signup
  | login => User.Login

def form : (d : Drafting) → Form (Option d.Draft)
  | application => Application.draftForm
  | checklistItem => Checklist.draftForm
  | company => Company.draftForm
  | resume => Resume.draftForm
  | upload => Resume.uploadForm
  | tailoring => Tailored.draftForm
  | signup => User.signupForm
  | login => User.loginForm

/-- The answer for a form that accepts a body without a draft. -/
def fallback : Drafting → String
  | application => "Invalid application"
  | checklistItem => "Invalid checklist item"
  | company => "Company name is required"
  | resume => "Invalid resume"
  | upload => "Name is required"
  | tailoring => "Invalid tailoring request"
  | signup => "Invalid signup"
  | login => "Invalid login"

def checked (d : Drafting) (body : Value) : Handler d.Draft := Handler.check d.form d.fallback body

/-- The endpoint that needs the draft goes on from a checked one. -/
def Asked : Drafting → Prop
  | application => ∀ caller body, ∃ next : Application.Draft → Handler Reply,
      Application.Endpoint.create caller body = application.checked body >>= next
  | checklistItem => ∀ caller body, ∃ next : Checklist.Draft → Handler Reply,
      Checklist.Endpoint.post caller body = checklistItem.checked body >>= next
  | company => ∀ body, ∃ next : Company.Draft → Handler Reply,
      Company.Endpoint.create body = company.checked body >>= next
  | resume => ∀ caller body, ∃ next : Resume.Draft → Handler Reply,
      Resume.Endpoint.create caller body = resume.checked body >>= next
  | upload => ∀ caller v boundary, v.boundary? = some boundary →
      ∃ next : SentForm → String × Bool → Handler Reply,
        Resume.Endpoint.upload caller v
          = v.sentForm boundary >>= fun sent => upload.checked (.record sent.fields) >>= next sent
  | tailoring => ∀ caller body, ∃ next : Tailored.Draft → Handler Reply,
      Tailored.Endpoint.create caller body = tailoring.checked body >>= next
  | signup => ∀ v : Visit, ∃ next : User.Signup → Handler Reply,
      User.Endpoint.signup v = v.json >>= fun body => signup.checked body >>= next
  | login => ∀ v : Visit, ∃ next : User.Login → Handler Reply,
      User.Endpoint.login v = v.json >>= fun body => login.checked body >>= next

theorem asked (d : Drafting) : d.Asked := by
  cases d with
  | application => exact fun _ _ => ⟨_, rfl⟩
  | checklistItem => exact fun _ _ => ⟨_, rfl⟩
  | company => exact fun _ => ⟨_, rfl⟩
  | resume => exact fun _ _ => ⟨_, rfl⟩
  | upload =>
    intro caller v boundary h
    rw [Resume.Endpoint.upload, h]
    exact ⟨_, rfl⟩
  | tailoring => exact fun _ _ => ⟨_, rfl⟩
  | signup => exact fun _ => ⟨_, rfl⟩
  | login => exact fun _ => ⟨_, rfl⟩

def checks : Drafting → List Check
  | application => Application.draftChecks
  | checklistItem => Checklist.draftChecks
  | company => Company.draftChecks
  | resume => Resume.draftChecks
  | upload => Resume.uploadChecks
  | tailoring => Tailored.draftChecks
  | signup => User.signupChecks
  | login => User.loginChecks

theorem form_tests (d : Drafting) : d.form.Tests d.checks := by
  cases d with
  | application => exact Application.draftForm_tests
  | checklistItem => exact Checklist.draftForm_tests
  | company => exact Company.draftForm_tests
  | resume => exact Resume.draftForm_tests
  | upload => exact Resume.uploadForm_tests
  | tailoring => exact Tailored.draftForm_tests
  | signup => exact User.signupForm_tests
  | login => exact User.loginForm_tests

theorem form_completes (d : Drafting) : d.form.Completes d.checks := by
  cases d with
  | application => exact Application.draftForm_completes
  | checklistItem => exact Checklist.draftForm_completes
  | company => exact Company.draftForm_completes
  | resume => exact Resume.draftForm_completes
  | upload => exact Resume.uploadForm_completes
  | tailoring => exact Tailored.draftForm_completes
  | signup => exact User.signupForm_completes
  | login => exact User.loginForm_completes

/-! ## What a run answers -/

theorem form_ne_none (d : Drafting) (body : Value) : d.form.run body ≠ .ok none := by
  intro h
  have hpasses := (d.form_tests.accepts_iff body).mp ⟨_, h⟩
  obtain ⟨draft, hdraft⟩ := (Form.exists_some_iff d.form_tests d.form_completes body).mpr hpasses
  exact absurd (h.symm.trans hdraft) (by simp)

/-- A draft, or every field that is at fault. -/
theorem checked_run (d : Drafting) (body : Value) :
    (∃ draft, (d.checked body).run = .done (.ok draft))
      ∨ ∃ fields, (d.checked body).run
          = .done (.error (.api (.validation "Validation failed" (some fields)))) := by
  have hne := d.form_ne_none body
  have hrun := d.form.run_eq body
  split at hrun
  · cases hdraft : (d.form body []).1 with
    | none => exact absurd (hrun.trans (congrArg _ hdraft)) hne
    | some draft =>
      refine .inl ⟨draft, ?_⟩
      rw [checked, Handler.check, hrun, hdraft]
      rfl
  · refine .inr ⟨(d.form body []).2, ?_⟩
    rw [checked, Handler.check, hrun]
    rfl

end Drafting

/--
Checks do not interfere, and a run tells all that is wrong: each check finds what it finds alone; the run
succeeds when each check accepts alone; and a failed run has, in the order of their bytes, the names that
some check refuses, each with the message of the first check that does. A rule that is required gives a value
exactly when it accepts, so the answer for a form without a draft is never given.
-/
theorem checks_apart_and_drafts_complete :
    (∀ (tests : List FieldTest) (body : Value),
      (FieldTest.askAll tests body []).1 = tests.map (·.finding body)
        ∧ ((∃ findings, (FieldTest.askAll tests).run body = .ok findings) ↔ ∀ t ∈ tests, t.Passes body)
        ∧ (∀ err, (FieldTest.askAll tests).run body = .error err →
            ∃ fields : FieldErrors, err = .validation "Validation failed" (some fields)
              ∧ fields.InByteOrder
              ∧ ∀ key, fields.lookup key = (FieldTest.firstFailing? tests body key).map (·.message)))
    ∧ (∀ (t : FieldTest) (body : Value), t.rule.IsRequired →
        ((t.finding body).found.isSome ↔ t.Passes body))
    ∧ ∀ d : Drafting, d.Asked ∧ ∀ body : Value,
        d.form.run body ≠ .ok none
          ∧ (d.checked body).run ≠ .done (.error (.api (.badRequest d.fallback)))
          ∧ ((∃ draft, (d.checked body).run = .done (.ok draft))
            ∨ ∃ fields, (d.checked body).run
                = .done (.error (.api (.validation "Validation failed" (some fields))))) := by
  refine ⟨fun tests body => ⟨?_, ?_, ?_⟩, fun t body h => t.isSome_finding_iff h body, fun d =>
    ⟨d.asked, fun body => ⟨d.form_ne_none body, ?_, d.checked_run body⟩⟩⟩
  · rw [FieldTest.askAll_eq]
  · rw [FieldTest.run_askAll]
    split
    · rename_i hall
      exact ⟨fun _ => hall, fun _ => ⟨_, rfl⟩⟩
    · rename_i hsome
      constructor
      · rintro ⟨findings, h⟩
        cases h
      · intro hall
        exact absurd hall hsome
  · intro err herr
    rw [FieldTest.run_askAll] at herr
    split at herr
    · cases herr
    · cases herr
      exact ⟨_, rfl, (FieldTest.ordered_noted tests body).inByteOrder, FieldTest.lookup_noted tests body⟩
  · intro hfallback
    rcases d.checked_run body with ⟨draft, h⟩ | ⟨fields, h⟩
    · cases h.symm.trans hfallback
    · cases h.symm.trans hfallback

end JobTrail
