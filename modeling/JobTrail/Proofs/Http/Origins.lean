import JobTrail.Http.Origins
import JobTrail.Proofs.Settings

/-!
# Which origins are let in

A list of origins lets in its own members and nobody else if it can be used at all and one of its members can
stand in a header. A list of which nothing is left is treated as no list.
-/

set_option maxRecDepth 8192

namespace JobTrail

namespace Origins

variable {list : List String} {origins : Origins} {requested : Option String} {o : String}

/-- The text can be the value of a header. -/
def Sendable (o : String) : Prop := o.toList.all isHeaderChar

instance (o : String) : Decidable (Sendable o) := inferInstanceAs (Decidable (_ = true))

def sendables (list : List String) : List String := list.filter fun o => o.toList.all isHeaderChar

theorem mem_sendables_iff : o ∈ sendables list ↔ o ∈ list ∧ Sendable o := List.mem_filter

theorem sendables_eq_nil_iff : sendables list = [] ↔ ∀ o ∈ list, ¬ Sendable o := List.filter_eq_nil_iff

theorem star_mem_sendables_iff : "*" ∈ sendables list ↔ "*" ∈ list := by
  rw [mem_sendables_iff]
  exact and_iff_left (by decide)

theorem ofList?_of_not_sendable (h : ∀ o ∈ list, ¬ Sendable o) : ofList? list = some every := by
  have hnil := sendables_eq_nil_iff.mpr h
  rw [sendables] at hnil
  rw [ofList?, hnil]

theorem ofList?_of_sendable (h : ∃ o ∈ list, Sendable o) :
    ofList? list = if "*" ∈ list then none else some (listed (sendables list)) := by
  obtain ⟨o, hmem, ho⟩ := h
  have hne : sendables list ≠ [] := fun hnil => sendables_eq_nil_iff.mp hnil o hmem ho
  obtain ⟨first, rest, hcons⟩ := List.exists_cons_of_ne_nil hne
  have hlist : ofList? list
      = if (sendables list).contains "*" then none else some (listed (sendables list)) := by
    rw [hcons]
    rw [sendables] at hcons
    rw [ofList?, hcons]
  rw [hlist]
  simp only [List.contains_iff_mem, star_mem_sendables_iff]

/-- An answer names the origin that asked, and only if it is allowed. -/
theorem mem_sharing_iff :
    ("access-control-allow-origin", o) ∈ origins.sharing requested ↔ requested = some o ∧ origins.allows o := by
  constructor
  · intro h
    rcases List.mem_append.mp h with h | h
    · obtain ⟨asking, hasking, heq⟩ := List.mem_map.mp h
      obtain rfl : asking = o := congrArg Prod.snd heq
      exact Option.filter_eq_some_iff.mp (Option.mem_toList.mp hasking)
    · simp at h
  · rintro ⟨rfl, ho⟩
    exact List.mem_append_left _ (List.mem_map.mpr ⟨o, by simp [ho], rfl⟩)

theorem mem_preflight_iff :
    ("access-control-allow-origin", o) ∈ (origins.preflight requested).headers
      ↔ ("access-control-allow-origin", o) ∈ origins.sharing requested := by
  simp [preflight]

/-- An origin is let in by an answer to a request or to the question before it. -/
def LetsIn (origins : Origins) (o : String) : Prop :=
  ∃ requested, ("access-control-allow-origin", o) ∈ origins.sharing requested ∨
    ("access-control-allow-origin", o) ∈ (origins.preflight requested).headers

theorem letsIn_iff : origins.LetsIn o ↔ origins.allows o := by
  simp only [LetsIn, mem_preflight_iff, or_self, mem_sharing_iff]
  exact ⟨fun ⟨_, _, ho⟩ => ho, fun ho => ⟨some o, rfl, ho⟩⟩

end Origins

open Origins

namespace Settings

/-- The list of origins can be used, and nobody but its members is let in. -/
def EnforcesOrigins (s : Settings) : Prop :=
  ∃ origins, ofList? s.security.origins = some origins ∧ ∀ o, origins.LetsIn o → o ∈ s.security.origins

/-- A list that is enforced has no star and keeps a member when those that fit no header are dropped. -/
theorem enforcesOrigins_iff (s : Settings) :
    s.EnforcesOrigins ↔ "*" ∉ s.security.origins ∧ ∃ o ∈ s.security.origins, Sendable o := by
  constructor
  · rintro ⟨origins, horigins, hmembers⟩
    by_cases hkept : ∃ o ∈ s.security.origins, Sendable o
    · refine ⟨fun hstar => ?_, hkept⟩
      rw [ofList?_of_sendable hkept, if_pos hstar] at horigins
      cases horigins
    · -- Every origin is let in, also one that the list cannot have.
      have hnone : ∀ o ∈ s.security.origins, ¬ Sendable o := fun o hmem ho => hkept ⟨o, hmem, ho⟩
      rw [ofList?_of_not_sendable hnone] at horigins
      cases horigins
      have hnull : "null" ∈ s.security.origins := hmembers "null" (letsIn_iff.mpr rfl)
      exact absurd (by decide) (hnone "null" hnull)
  · rintro ⟨hstar, hkept⟩
    refine ⟨listed (sendables s.security.origins), ?_, fun o ho => ?_⟩
    · rw [ofList?_of_sendable hkept, if_neg hstar]
    · have hmem : o ∈ sendables s.security.origins := List.contains_iff_mem.mp (letsIn_iff.mp ho)
      exact (mem_sendables_iff.mp hmem).1

/-- Two origins with a line break between them and no comma. -/
def brokenOrigins : Variables := fun key =>
  if key = "SECURITY_CORS_ORIGINS" then some "http://a.test\nhttp://b.test" else none

theorem broken_origins_let_in_all :
    ¬ ∀ (vars : Variables) (s : Settings), ofVariables vars = .ok s → s.security.origins ≠ [] →
      s.EnforcesOrigins := by
  intro law
  let settings : Settings :=
    { development with
      security := { development.security with origins := ["http://a.test\nhttp://b.test"] } }
  have haccepted : ofVariables brokenOrigins = .ok settings := by rfl
  obtain ⟨origins, horigins, hmembers⟩ := law brokenOrigins settings haccepted (by decide)
  have hnone : ∀ o ∈ settings.security.origins, ¬ Sendable o := by decide
  rw [ofList?_of_not_sendable hnone] at horigins
  cases horigins
  have hevil : "http://evil.test" ∈ settings.security.origins :=
    hmembers "http://evil.test" (letsIn_iff.mpr rfl)
  exact absurd hevil (by decide)

end Settings
end JobTrail
