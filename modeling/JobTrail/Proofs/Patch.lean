import JobTrail.Application.Endpoints
import JobTrail.Checklist.Endpoints
import JobTrail.Proofs.Form
import JobTrail.Proofs.Value.Within
import JobTrail.Resume.Endpoints
import JobTrail.User.Endpoints

/-!
# Checked patches and what they write

A patch is read twice: the form looks up wire names, and the compiler looks up the storage spelling of
every key and lets the last one win. What the form checked is therefore what the statement writes only
if the last key of a field is its wire name. The main statement gives the exact condition under which
every value that a checked patch assigns is one that its own form accepts.
-/

namespace JobTrail

/-! ## The last entry of a field -/

/-- The last entry whose key has the storage spelling of a field. -/
def Value.lastSpelled? (body : Value) (field : String) : Option (String × Value) :=
  (body.record?.getD []).reverse.find? fun e => Casing.snake e.1 = field

theorem Value.toSnake_record (r : Record) :
    (Value.record r).toSnake
      = .record (Record.ofList (r.map fun e => (Casing.snake e.1, e.2.toSnake))) :=
  transcode_record .snake r

theorem stored_get? (body : Value) (field : String) :
    Record.get? (body.toSnake.record?.getD []) field
      = (body.lastSpelled? field).map fun e => e.2.toSnake := by
  cases body with
  | record r =>
    rw [Value.toSnake_record]
    simp only [Value.record?, Option.getD_some, Value.lastSpelled?, Record.get?_ofList,
      ← List.map_reverse, List.find?_map, Option.map_map]
    rfl
  | _ => rfl

/-- Under distinct keys, the last entry of a field is also what its own key finds. -/
theorem Value.get?_of_lastSpelled? {body : Value} (distinct : body.Distinct) {field key : String}
    {v : Value} (h : body.lastSpelled? field = some (key, v)) : body.get? key = some v := by
  have hmem := List.mem_reverse.mp (List.mem_of_find?_eq_some h)
  cases body with
  | record r => exact Record.get?_eq_some_of_mem (distinct r (.here _)) hmem
  | _ => cases hmem

theorem mem_patchedFields_iff {allow : List String} {patch v : Value} {field : String} :
    (field, v) ∈ patchedFields allow patch ↔
      field ∈ allow ∧ ∃ key w, patch.lastSpelled? field = some (key, w) ∧ v = w.toSnake := by
  simp only [patchedFields, List.mem_filterMap, stored_get?, Option.map_map]
  constructor
  · rintro ⟨f, hf, h⟩
    obtain ⟨⟨key, w⟩, hlast, heq⟩ := Option.map_eq_some_iff.mp h
    cases heq
    exact ⟨hf, key, w, hlast, rfl⟩
  · rintro ⟨hf, key, w, hlast, rfl⟩
    exact ⟨field, hf, by simp [hlast]⟩

/-! ## What an update assigns -/

def CompiledUpdate.Assigns (u : CompiledUpdate) (field : String) (v : Value) : Prop :=
  (field, v) ∈ u.fields.zip u.params

variable {allow : List String} {scope : List Value} {patch : Value} {style : PlaceholderStyle}

theorem CompiledUpdate.assigns_iff {u : CompiledUpdate}
    (h : compileUpdate allow scope patch style = .ok u) (field : String) (v : Value) :
    u.Assigns field v ↔ (field, v) ∈ patchedFields allow patch := by
  cases hentries : patchedFields allow patch with
  | nil => simp [compileUpdate, hentries] at h
  | cons e rest =>
    simp only [compileUpdate, hentries, Except.ok.injEq] at h
    subst h
    have hzip : ∀ entries : List (String × Value),
        (entries.map (·.1)).zip (entries.map (·.2) ++ scope) = entries := by
      intro entries
      induction entries with
      | nil => simp
      | cons d tail ih => simp [ih]
    rw [Assigns, hzip]

theorem compileUpdate_of_mem (scope : List Value) (style : PlaceholderStyle) {e : String × Value}
    (h : e ∈ patchedFields allow patch) : ∃ u, compileUpdate allow scope patch style = .ok u := by
  cases hentries : patchedFields allow patch with
  | nil => simp [hentries] at h
  | cons d rest => exact ⟨_, by rw [compileUpdate, hentries]⟩

/-! ## Checks of single fields -/

/-- A field that a form checks under its wire name. The check skips a field that is absent, and it
looks at a value no deeper than the spelling of keys reaches. -/
structure FieldCheck where
  field : String
  Accepts : Option Value → Prop
  absent : Accepts none
  transcoded : ∀ v : Value, Accepts (some v.toSnake) ↔ Accepts (some v)

/-- A rule for scalars cannot tell a value from its storage form. -/
def Rule.Shallow {α : Type} (rule : Rule α) : Prop := ∀ v : Value, rule (some v.toSnake) = rule (some v)

theorem Value.isNull_toSnake (v : Value) : v.toSnake.isNull = v.isNull := by cases v <;> rfl

theorem Value.text?_toSnake (v : Value) : v.toSnake.text? = v.text? := by cases v <;> rfl

theorem Value.flag?_toSnake (v : Value) : v.toSnake.flag? = v.flag? := by cases v <;> rfl

theorem asInt_toSnake (v : Value) : asInt v.toSnake = asInt v := by cases v <;> rfl

theorem present_some (v : Value) : present (some v) = if v.isNull then none else some v := by
  cases h : v.isNull <;> simp [present, Option.filter, h]

theorem present_bind_toSnake {α : Type} {f : Value → Option α} (hf : ∀ v, f v.toSnake = f v)
    (v : Value) : (present (some v.toSnake)).bind f = (present (some v)).bind f := by
  rw [present_some, present_some, Value.isNull_toSnake]
  split
  · rfl
  · exact hf v

theorem requiredText_shallow : Rule.requiredText.Shallow := fun v => by
  rw [Rule.requiredText, Rule.requiredText, trimmedText, trimmedText,
    present_bind_toSnake Value.text?_toSnake]

theorem oneOf_shallow (allowed : List String) : (Rule.oneOf allowed).Shallow := fun v => by
  rw [Rule.oneOf, Rule.oneOf, present_bind_toSnake Value.text?_toSnake]

theorem intRange_shallow (low high : Int) : (Rule.intRange low high).Shallow := fun v => by
  rw [Rule.intRange, Rule.intRange, present_bind_toSnake asInt_toSnake]

theorem flag_shallow :
    Rule.Shallow fun field => Rule.found ((present field).bind Value.flag?) := fun v =>
  congrArg Rule.found (present_bind_toSnake Value.flag?_toSnake v)

def FieldCheck.optional {α : Type} (field : String) (rule : Rule α) (shallow : rule.Shallow) :
    FieldCheck where
  field := field
  Accepts := (Rule.optional rule).Accepts
  absent := rfl
  transcoded v := by
    have hpresent : (present (some v.toSnake)).isNone = (present (some v)).isNone := by
      rw [present_some, present_some, Value.isNull_toSnake]
      split <;> rfl
    rw [Rule.Accepts, Rule.Accepts, Rule.optional, Rule.optional, hpresent, shallow v]

/-! ## The resources that take patches -/

inductive Patchable where
  | application
  | checklistItem
  | profile
  | resume
deriving DecidableEq, Repr

namespace Patchable

def form : Patchable → Form Unit
  | application => Application.patchForm
  | checklistItem => Checklist.patchForm
  | profile => User.patchForm
  | resume => Resume.patchForm

def template : Patchable → UpdateTemplate
  | application => Application.updateTemplate
  | checklistItem => Checklist.updateTemplate
  | profile => User.updateTemplate
  | resume => Resume.updateTemplate

def checks : Patchable → List FieldCheck
  | application => [.optional "status" (Rule.oneOf Application.statuses) (oneOf_shallow _)]
  | checklistItem => [.optional "category" (Rule.oneOf Checklist.categories) (oneOf_shallow _)]
  | profile =>
    [.optional "name" Rule.requiredText requiredText_shallow,
      .optional "university" Rule.requiredText requiredText_shallow,
      .optional "major" Rule.requiredText requiredText_shallow,
      .optional "graduation_year" (Rule.intRange 2020 2030) (intRange_shallow _ _),
      .optional "weekly_goal" (Rule.intRange 1 20) (intRange_shallow _ _)]
  | resume =>
    [.optional "name" Rule.requiredText requiredText_shallow,
      .optional "is_primary" _ flag_shallow]

def checked (p : Patchable) : List String := p.checks.map (·.field)

/-- The form of a resource accepts a value that is sent alone under the wire name of a field. -/
def AcceptsAlone (p : Patchable) (field : String) (v : Value) : Prop :=
  p.form.run (.record [(Casing.camel field, v)]) = .ok ()

variable {p : Patchable} {c : FieldCheck}

theorem field_mem_checked (h : c ∈ p.checks) : c.field ∈ p.checked := List.mem_map_of_mem h

theorem checked_nodup (p : Patchable) : p.checked.Nodup := by
  cases p <;> decide

theorem checked_subset_allow (p : Patchable) : ∀ field ∈ p.checked, field ∈ p.template.allow := by
  cases p <;> decide

theorem snake_camel_checked (p : Patchable) :
    ∀ field ∈ p.checked, Casing.snake (Casing.camel field) = field := by
  cases p <;> decide

/-- The form of a resource accepts a body exactly when every check accepts what stands under the wire
name of its field. -/
theorem run_form_eq_ok_iff (p : Patchable) (body : Value) :
    p.form.run body = .ok () ↔ ∀ c ∈ p.checks, c.Accepts (body.get? (Casing.camel c.field)) := by
  have hwire : ∀ field wire, Casing.camel field = wire → body.get? (Casing.camel field) = body.get? wire :=
    fun _ _ h => congrArg body.get? h
  cases p with
  | application =>
    have h : Form.Demands Application.patchForm _ :=
      (Form.demands_check _ "status" _).bind fun _ => Form.demands_pure ()
    refine (h.run_eq_ok_iff body).trans ?_
    simp only [checks, List.forall_mem_singleton, and_true, FieldCheck.optional,
      hwire "status" "status" (by decide)]
    rfl
  | checklistItem =>
    have h : Form.Demands Checklist.patchForm _ :=
      (Form.demands_check _ "category" _).bind fun _ => Form.demands_pure ()
    refine (h.run_eq_ok_iff body).trans ?_
    simp only [checks, List.forall_mem_singleton, and_true, FieldCheck.optional,
      hwire "category" "category" (by decide)]
    rfl
  | profile =>
    have h : Form.Demands User.patchForm _ :=
      (Form.demands_check _ "name" _).bind fun _ =>
      (Form.demands_check _ "university" _).bind fun _ =>
      (Form.demands_check _ "major" _).bind fun _ =>
      (Form.demands_check _ "graduationYear" _).bind fun _ =>
      (Form.demands_check _ "weeklyGoal" _).bind fun _ => Form.demands_pure ()
    refine (h.run_eq_ok_iff body).trans ?_
    simp only [checks, List.forall_mem_cons, List.not_mem_nil, false_implies, implies_true, and_true,
      FieldCheck.optional, hwire "name" "name" (by decide),
      hwire "university" "university" (by decide), hwire "major" "major" (by decide),
      hwire "graduation_year" "graduationYear" (by decide),
      hwire "weekly_goal" "weeklyGoal" (by decide)]
    rfl
  | resume =>
    have h : Form.Demands Resume.patchForm _ :=
      (Form.demands_check _ "name" _).bind fun _ =>
      (Form.demands_check _ "isPrimary" _).bind fun _ => Form.demands_pure ()
    refine (h.run_eq_ok_iff body).trans ?_
    simp only [checks, List.forall_mem_cons, List.not_mem_nil, false_implies, implies_true, and_true,
      FieldCheck.optional, hwire "name" "name" (by decide),
      hwire "is_primary" "isPrimary" (by decide)]
    rfl

theorem acceptsAlone_iff (h : c ∈ p.checks) (v : Value) :
    p.AcceptsAlone c.field v ↔ c.Accepts (some v) := by
  have hfind : ∀ d ∈ p.checks,
      Value.get? (.record [(Casing.camel c.field, v)]) (Casing.camel d.field)
        = if d.field = c.field then some v else none := by
    intro d hd
    have hspell := snake_camel_checked p
    by_cases he : d.field = c.field
    · simp [Value.get?, Value.record?, Record.get?_cons, he]
    · have hne : Casing.camel c.field ≠ Casing.camel d.field := fun hc => he <| by
        rw [← hspell _ (field_mem_checked hd), ← hc, hspell _ (field_mem_checked h)]
      simp [Value.get?, Value.record?, Record.get?_cons, hne, he]
  rw [AcceptsAlone, run_form_eq_ok_iff]
  constructor
  · intro hall
    simpa [hfind c h] using hall c h
  · intro hc d hd
    rw [hfind d hd]
    split
    · rename_i he
      have hdc : d = c := List.inj_on_of_nodup_map (checked_nodup p) hd h he
      exact hdc ▸ hc
    · exact d.absent

/-- Exactly when the law holds: a body that the form accepts assigns only values that the form accepts
if and only if each last entry of a checked field stands under the wire name of the field or holds a
value that the form accepts anyway. -/
theorem assigned_accepted_iff (p : Patchable) {body : Value} (distinct : body.Distinct)
    (accepted : p.form.run body = .ok ()) :
    (∀ scope style u, compileUpdate p.template.allow scope body style = .ok u →
      ∀ field ∈ p.checked, ∀ v, u.Assigns field v → p.AcceptsAlone field v) ↔
    ∀ field ∈ p.checked, ∀ key v, body.lastSpelled? field = some (key, v) →
      key = Casing.camel field ∨ p.AcceptsAlone field v := by
  constructor
  · intro law field hfield key v hlast
    obtain ⟨c, hc, rfl⟩ := List.mem_map.mp hfield
    have hpatched : (c.field, v.toSnake) ∈ patchedFields p.template.allow body :=
      mem_patchedFields_iff.mpr ⟨checked_subset_allow p _ hfield, key, v, hlast, rfl⟩
    obtain ⟨u, hu⟩ := compileUpdate_of_mem [] .numbered hpatched
    have halone := law [] .numbered u hu c.field hfield v.toSnake
      ((CompiledUpdate.assigns_iff hu _ _).mpr hpatched)
    rw [acceptsAlone_iff hc, c.transcoded] at halone
    exact .inr ((acceptsAlone_iff hc v).mpr halone)
  · intro hlast scope style u hu field hfield v hassigns
    obtain ⟨c, hc, rfl⟩ := List.mem_map.mp hfield
    obtain ⟨-, key, w, hspelled, rfl⟩ :=
      mem_patchedFields_iff.mp ((CompiledUpdate.assigns_iff hu _ _).mp hassigns)
    rw [acceptsAlone_iff hc, c.transcoded]
    rcases hlast c.field hfield key w hspelled with rfl | halone
    · -- The wire name finds the last entry itself, and that is what the form has looked at.
      have hfound := Value.get?_of_lastSpelled? distinct hspelled
      exact hfound ▸ (run_form_eq_ok_iff p body).mp accepted c hc
    · exact (acceptsAlone_iff hc w).mp halone

/-- Two spellings of one flag: the form sees the first and the statement takes the second, which the
form would accept as well. -/
theorem assigned_accepted_two_flags :
    let body := Value.record [("isPrimary", .bool false), ("IsPrimary", .text "true")]
    body.Distinct ∧ resume.form.run body = .ok () ∧
      ∀ scope style u, compileUpdate resume.template.allow scope body style = .ok u →
        ∀ field ∈ resume.checked, ∀ v, u.Assigns field v → resume.AcceptsAlone field v := by
  intro body
  have distinct : body.Distinct :=
    Value.distinct_record_iff.mpr ⟨by decide, by simp [Value.distinct_bool, Value.distinct_text]⟩
  have accepted : resume.form.run body = .ok () := rfl
  refine ⟨distinct, accepted, (assigned_accepted_iff .resume distinct accepted).mpr ?_⟩
  intro field hfield key v hlast
  have hcases : field = "name" ∨ field = "is_primary" := by simpa [checked, checks, FieldCheck.optional] using hfield
  rcases hcases with rfl | rfl
  · have hnone : body.lastSpelled? "name" = none := by decide
    cases hnone.symm.trans hlast
  · have hsome : body.lastSpelled? "is_primary" = some ("IsPrimary", .text "true") := by decide
    cases hsome.symm.trans hlast
    exact .inr rfl

/-- A status that no form accepts is written when its key starts with a capital. -/
theorem refused_status_assigned :
    ¬ ∀ (p : Patchable) (body : Value), body.Distinct → p.form.run body = .ok () →
      ∀ scope style u, compileUpdate p.template.allow scope body style = .ok u →
        ∀ field ∈ p.checked, ∀ v, u.Assigns field v → p.AcceptsAlone field v := by
  intro law
  let body := Value.record [("Status", .text "Ghosted")]
  have distinct : body.Distinct :=
    Value.distinct_record_iff.mpr ⟨by decide, by simp [Value.distinct_text]⟩
  have hpatched : ("status", Value.text "Ghosted") ∈ patchedFields application.template.allow body := by
    decide
  obtain ⟨u, hu⟩ := compileUpdate_of_mem [] .numbered hpatched
  have halone := law .application body distinct rfl [] .numbered u hu "status" (by decide) _
    ((CompiledUpdate.assigns_iff hu _ _).mpr hpatched)
  cases halone

end Patchable
end JobTrail
