import JobTrail.Proofs.Gate.Checks
import JobTrail.Proofs.Text.Bytes

/-!
# Checks one after the other

A form runs its checks over one list of messages. What a check finds does not depend on that list, and what
the whole run leaves in it can be read off the checks alone: under each name that some check refuses stands
the message of the first check that refuses it, and the names stand in the order of their bytes.
-/

namespace JobTrail

/-! ## Messages by name -/

namespace FieldErrors

variable {errors : FieldErrors} {key message : String} {e : String × String}

/-- The names go up, so none of them stands there twice. -/
def Ordered (errors : FieldErrors) : Prop := errors.Pairwise fun a b => a.1 < b.1

def InByteOrder (errors : FieldErrors) : Prop :=
  errors.Pairwise fun a b => a.1.toUTF8.data.toList < b.1.toUTF8.data.toList

theorem Ordered.inByteOrder (h : errors.Ordered) : errors.InByteOrder := h.imp toUTF8_lt

theorem mem_note (h : e ∈ errors.note key message) : e = (key, message) ∨ e ∈ errors := by
  induction errors with
  | nil => exact .inl (List.mem_singleton.mp h)
  | cons d rest ih =>
    obtain ⟨k, m⟩ := d
    rw [note] at h
    split at h
    · exact .inr h
    split at h
    · exact List.mem_cons.mp h
    · rcases List.mem_cons.mp h with rfl | hrest
      · exact .inr List.mem_cons_self
      · exact (ih hrest).imp_right (List.mem_cons_of_mem _)

theorem ordered_nil : Ordered [] := List.Pairwise.nil

theorem Ordered.note (h : errors.Ordered) (key message : String) : (errors.note key message).Ordered := by
  induction errors with
  | nil => exact List.pairwise_singleton _ _
  | cons d rest ih =>
    obtain ⟨k, m⟩ := d
    obtain ⟨hfirst, hrest⟩ := List.pairwise_cons.mp h
    rw [FieldErrors.note]
    split
    · exact h
    split
    · rename_i hlt
      refine List.pairwise_cons.mpr ⟨?_, h⟩
      intro d hd
      rcases List.mem_cons.mp hd with rfl | hd
      · exact hlt
      · exact String.lt_trans hlt (hfirst d hd)
    · rename_i hne hnlt
      refine List.pairwise_cons.mpr ⟨?_, ih hrest⟩
      intro d hd
      rcases mem_note hd with rfl | hd
      · exact lt_of_le_of_ne (not_lt.mp hnlt) (Ne.symm hne)
      · exact hfirst d hd

theorem lookup_cons (k m : String) (rest : FieldErrors) (name : String) :
    List.lookup name ((k, m) :: rest) = if name = k then some m else rest.lookup name := by
  rw [List.lookup_cons]
  by_cases h : name = k
  · rw [if_pos h, beq_iff_eq.mpr h]
  · rw [if_neg h, beq_eq_false_iff_ne.mpr h]

theorem Ordered.lookup_of_lt {k m : String} {rest : FieldErrors} (h : Ordered ((k, m) :: rest)) (hlt : key < k) :
    List.lookup key ((k, m) :: rest) = none := by
  refine List.lookup_eq_none_iff.mpr fun d hd => bne_iff_ne.mpr ?_
  rcases List.mem_cons.mp hd with rfl | hrest
  · exact hlt.ne
  · exact (hlt.trans ((List.pairwise_cons.mp h).1 d hrest)).ne

/-- The first message of a name stays, and no other name is touched. -/
theorem Ordered.lookup_note (h : errors.Ordered) (key message name : String) :
    (errors.note key message).lookup name
      = if name = key then (errors.lookup name).or (some message) else errors.lookup name := by
  induction errors with
  | nil => exact lookup_cons key message [] name
  | cons d rest ih =>
    obtain ⟨k, m⟩ := d
    rw [FieldErrors.note]
    by_cases hkey : key = k
    · rw [if_pos hkey]
      by_cases hname : name = key
      · rw [if_pos hname, lookup_cons, if_pos (hname.trans hkey), Option.some_or]
      · rw [if_neg hname]
    by_cases hlt : key < k
    · rw [if_neg hkey, if_pos hlt, lookup_cons]
      by_cases hname : name = key
      · rw [if_pos hname, if_pos hname, hname, h.lookup_of_lt hlt, Option.none_or]
      · rw [if_neg hname, if_neg hname]
    · rw [if_neg hkey, if_neg hlt, lookup_cons, lookup_cons, ih (List.pairwise_cons.mp h).2]
      by_cases hname : name = k
      · have hother : name ≠ key := fun he => hkey (he.symm.trans hname)
        rw [if_pos hname, if_neg hother, if_pos hname]
      · rw [if_neg hname, if_neg hname]

end FieldErrors

/-! ## What a form can ask of a field -/

/-- The rules that forms are made of. -/
inductive FieldRule where
  | requiredText
  | optionalText
  | anyText
  | email
  | minLength (least : Nat)
  | intRange (low high : Int)
  | optionalIntRange (low high : Int)
  | oneOf (allowed : List String)
  | optionalOneOf (allowed : List String)
  | optionalFlag
  | optionalTexts

namespace FieldRule

abbrev Found : FieldRule → Type
  | intRange .. | optionalIntRange .. => Int
  | optionalFlag => Bool
  | optionalTexts => List String
  | _ => String

def toRule : (r : FieldRule) → Rule r.Found
  | requiredText => Rule.requiredText
  | optionalText => Rule.optionalText
  | anyText => Rule.anyText
  | email => Rule.email
  | minLength least => Rule.minLength least
  | intRange low high => Rule.intRange low high
  | optionalIntRange low high => Rule.optionalIntRange low high
  | oneOf allowed => Rule.oneOf allowed
  | optionalOneOf allowed => Rule.optionalOneOf allowed
  | optionalFlag => Rule.optionalFlag
  | optionalTexts => Rule.optionalTexts

/-- The rules that refuse a field that is absent. -/
inductive IsRequired : FieldRule → Prop where
  | requiredText : IsRequired requiredText
  | email : IsRequired email
  | minLength (least : Nat) : IsRequired (minLength least)
  | intRange (low high : Int) : IsRequired (intRange low high)
  | oneOf (allowed : List String) : IsRequired (oneOf allowed)

theorem IsRequired.toRule {r : FieldRule} (h : r.IsRequired) : r.toRule.IsRequired := by
  cases h <;> exact fun _ => Rule.found_ne _

end FieldRule

/-- A check as a form calls it. -/
structure FieldTest where
  rule : FieldRule
  key : String
  message : String

/-- What a check has found. -/
structure Finding where
  rule : FieldRule
  found : Option rule.Found

namespace FieldTest

variable {t : FieldTest} {tests : List FieldTest} {body : Value} {errors : FieldErrors}

def ask (t : FieldTest) : Form (Option t.rule.Found) := Form.check t.rule.toRule t.key t.message

/-- What the check finds in a body when nothing was checked before it. -/
def finding (t : FieldTest) (body : Value) : Finding := ⟨t.rule, (t.ask body []).1⟩

/-- The check alone accepts the body. -/
def Passes (t : FieldTest) (body : Value) : Prop := ∃ v, t.ask.run body = .ok v

theorem passes_iff (t : FieldTest) (body : Value) : t.Passes body ↔ (t.rule.toRule (body.get? t.key)).isSome := by
  have halone := (Form.tests_check t.rule.toRule t.key t.message).accepts_iff body
  rw [passes_cons_iff, and_iff_left passes_nil] at halone
  exact halone

instance (t : FieldTest) (body : Value) : Decidable (t.Passes body) := decidable_of_iff _ (t.passes_iff body).symm

/-- What was noted before has no part in what is found, and only a refusal notes something. -/
theorem ask_eq (t : FieldTest) (body : Value) (errors : FieldErrors) :
    t.ask body errors
      = ((t.ask body []).1, if t.Passes body then errors else errors.note t.key t.message) := by
  simp only [passes_iff, ask, Form.check]
  cases t.rule.toRule (body.get? t.key) with
  | some v => rfl
  | none => rfl

theorem isSome_finding_iff (h : t.rule.IsRequired) (body : Value) :
    (t.finding body).found.isSome ↔ t.Passes body := by
  simp only [finding, passes_iff, ask, Form.check]
  cases hrule : t.rule.toRule (body.get? t.key) with
  | none => rfl
  | some v =>
    cases v with
    | none => exact absurd hrule (h.toRule _)
    | some a => rfl

/-- The checks one after the other over one list of messages. -/
def askAll : List FieldTest → Form (List Finding)
  | [] => pure []
  | t :: rest => do
    let found ← t.ask
    let findings ← askAll rest
    return ⟨t.rule, found⟩ :: findings

/-- The messages after some checks. -/
def noted (body : Value) : List FieldTest → FieldErrors → FieldErrors :=
  fun tests errors => tests.foldl (fun errors t => if t.Passes body then errors else errors.note t.key t.message) errors

theorem askAll_eq (tests : List FieldTest) (body : Value) (errors : FieldErrors) :
    askAll tests body errors = (tests.map (·.finding body), noted body tests errors) := by
  induction tests generalizing errors with
  | nil => rfl
  | cons t rest ih =>
    have hrest := ih (t.ask body errors).2
    have hcons : askAll (t :: rest) body errors
        = (⟨t.rule, (t.ask body errors).1⟩ :: (askAll rest body (t.ask body errors).2).1,
          (askAll rest body (t.ask body errors).2).2) := rfl
    rw [hcons, hrest, ask_eq t body errors]
    rfl

theorem noted_eq_nil_iff (tests : List FieldTest) (body : Value) (errors : FieldErrors) :
    noted body tests errors = [] ↔ errors = [] ∧ ∀ t ∈ tests, t.Passes body := by
  induction tests generalizing errors with
  | nil => simp [noted]
  | cons t rest ih =>
    have hcons : noted body (t :: rest) errors
        = noted body rest (if t.Passes body then errors else errors.note t.key t.message) := rfl
    rw [hcons, ih, List.forall_mem_cons]
    by_cases hpasses : t.Passes body
    · simp [hpasses]
    · simp [hpasses, FieldErrors.note_ne_nil]

theorem run_askAll (tests : List FieldTest) (body : Value) :
    (askAll tests).run body
      = if ∀ t ∈ tests, t.Passes body then .ok (tests.map (·.finding body))
        else .error (.validation "Validation failed" (some (noted body tests []))) := by
  have hquiet : noted body tests [] = [] ↔ ∀ t ∈ tests, t.Passes body := by simp [noted_eq_nil_iff]
  rw [Form.run_eq, askAll_eq]
  by_cases hall : ∀ t ∈ tests, t.Passes body
  · rw [if_pos hall, if_pos (hquiet.mpr hall)]
  · rw [if_neg hall, if_neg fun h => hall (hquiet.mp h)]

/-- The check whose message stands under a name in the end. -/
def firstFailing? (tests : List FieldTest) (body : Value) (key : String) : Option FieldTest :=
  tests.find? fun t => t.key = key ∧ ¬ t.Passes body

theorem noted_concat (tests : List FieldTest) (t : FieldTest) (body : Value) (errors : FieldErrors) :
    noted body (tests ++ [t]) errors
      = if t.Passes body then noted body tests errors else (noted body tests errors).note t.key t.message := by
  rw [noted, List.foldl_append]
  rfl

theorem firstFailing?_concat (tests : List FieldTest) (t : FieldTest) (body : Value) (key : String) :
    firstFailing? (tests ++ [t]) body key
      = (firstFailing? tests body key).or (if t.key = key ∧ ¬ t.Passes body then some t else none) := by
  rw [firstFailing?, List.find?_append, List.find?_singleton]
  simp [firstFailing?]

theorem ordered_noted (tests : List FieldTest) (body : Value) : (noted body tests []).Ordered := by
  induction tests using List.reverseRecOn with
  | nil => exact FieldErrors.ordered_nil
  | append_singleton tests t ih =>
    rw [noted_concat]
    split
    · exact ih
    · exact ih.note _ _

/-- Under a name stands the message of the first check that refuses it. -/
theorem lookup_noted (tests : List FieldTest) (body : Value) (key : String) :
    (noted body tests []).lookup key = (firstFailing? tests body key).map (·.message) := by
  -- From the end: the last check meets the messages of all others, and its own counts only where there is none.
  induction tests using List.reverseRecOn with
  | nil => rfl
  | append_singleton tests t ih =>
    rw [noted_concat, firstFailing?_concat]
    split
    · rename_i hpasses
      rw [ih, if_neg fun h => h.2 hpasses, Option.or_none]
    · rename_i hfails
      rw [(ordered_noted tests body).lookup_note, ih]
      by_cases hkey : t.key = key
      · rw [if_pos hkey.symm, if_pos ⟨hkey, hfails⟩]
        cases firstFailing? tests body key <;> rfl
      · rw [if_neg (Ne.symm hkey), if_neg fun h => hkey h.1, Option.or_none]

end FieldTest
end JobTrail
