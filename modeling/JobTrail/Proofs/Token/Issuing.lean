import JobTrail.Instant
import JobTrail.Proofs.Settings
import JobTrail.Token

/-!
# Issuing tokens

The expiry of a token is a date, and the calendar that it is computed in ends. The settings take every
lifetime whose seconds fit 64 bits, so some that they take leave no expiry to write down, and that shows when
the first token is issued. Up to the end of the year 9999 tokens can be issued if the lifetime leaves that
year within the calendar.
-/

namespace JobTrail

namespace TokenKeys

/-- The last second of the year 9999. -/
def yearsEnd : Int := 253402300799

example : (⟨yearsEnd, 0⟩ : Instant).iso = "9999-12-31T23:59:59.000Z" := by decide

variable {keys : TokenKeys} {now : Int}

theorem ofSecret_eq_ok_iff {secret : String} {lifetimeSecs : Int} :
    ofSecret secret lifetimeSecs = .ok keys ↔ keys.secret = secret ∧ keys.lifetimeSecs = lifetimeSecs := by
  obtain ⟨secret', lifetimeSecs', hne⟩ := keys
  unfold ofSecret
  split
  · rename_i hempty
    simp only [reduceCtorEq, false_iff, not_and]
    rintro rfl
    exact absurd hempty hne
  · simp [eq_comm]

theorem exists_ofSecret {secret : String} (h : secret ≠ "") (lifetimeSecs : Int) :
    ∃ keys, ofSecret secret lifetimeSecs = .ok keys :=
  ⟨⟨secret, lifetimeSecs, h⟩, ofSecret_eq_ok_iff.mpr ⟨rfl, rfl⟩⟩

theorem isSome_issue?_iff {userId email : String} :
    (keys.issue? now userId email).isSome ↔ keys.lifetimeSecs.natAbs ≤ lifetimeLimit ∧
      calendarStart ≤ now + keys.lifetimeSecs ∧ now + keys.lifetimeSecs ≤ calendarEnd := by
  rw [issue?, Option.isSome_map, expiry?]
  split
  · rename_i h
    exact iff_of_true rfl h
  · rename_i h
    exact iff_of_false (by simp) h

/-- Of a lifetime ahead, it is the end of the calendar alone that counts. -/
theorem isSome_issue?_iff_le {userId email : String} (hlifetime : 0 < keys.lifetimeSecs)
    (hnow : calendarStart ≤ now) :
    (keys.issue? now userId email).isSome ↔ keys.lifetimeSecs ≤ calendarEnd - now := by
  rw [isSome_issue?_iff]
  simp only [lifetimeLimit, calendarStart, calendarEnd] at hnow ⊢
  omega

/-- Tokens can be issued at any time up to the end of the year 9999. -/
def IssuesToYearsEnd (keys : TokenKeys) : Prop :=
  ∀ now, calendarStart ≤ now → now ≤ yearsEnd → ∀ userId email, (keys.issue? now userId email).isSome

theorem issuesToYearsEnd_iff (hlifetime : 0 < keys.lifetimeSecs) :
    keys.IssuesToYearsEnd ↔ keys.lifetimeSecs ≤ calendarEnd - yearsEnd := by
  constructor
  · intro h
    exact (isSome_issue?_iff_le hlifetime (by decide)).mp (h yearsEnd (by decide) (Int.le_refl _) "" "")
  · intro h now hstart hend userId email
    rw [isSome_issue?_iff_le hlifetime hstart]
    omega

end TokenKeys

open TokenKeys

namespace Settings

variable {vars : Variables} {s : Settings}

/-- Accepted settings issue tokens exactly if their lifetime ends within the calendar. -/
theorem issues_tokens_iff (h : ofVariables vars = .ok s) (hsecret : s.security.secret ≠ "") :
    (∃ keys, ofSecret s.security.secret s.security.lifetimeSecs = .ok keys ∧ keys.IssuesToYearsEnd) ↔
      s.security.lifetimeSecs ≤ calendarEnd - yearsEnd := by
  have hpos := lifetime_pos h
  constructor
  · rintro ⟨keys, hkeys, hissues⟩
    obtain ⟨-, hlifetime⟩ := ofSecret_eq_ok_iff.mp hkeys
    rw [← hlifetime] at hpos ⊢
    exact (issuesToYearsEnd_iff hpos).mp hissues
  · intro hle
    obtain ⟨keys, hkeys⟩ := exists_ofSecret hsecret s.security.lifetimeSecs
    obtain ⟨-, hlifetime⟩ := ofSecret_eq_ok_iff.mp hkeys
    rw [← hlifetime] at hpos hle
    exact ⟨keys, hkeys, (issuesToYearsEnd_iff hpos).mpr hle⟩

/-- No variable set. -/
def unset : Variables := fun _ => none

theorem issues_tokens_for_a_week :
    ofVariables unset = .ok development ∧ development.security.secret ≠ "" ∧
      ∃ keys, ofSecret development.security.secret development.security.lifetimeSecs = .ok keys ∧
        keys.IssuesToYearsEnd := by
  have haccepted : ofVariables unset = .ok development := by rfl
  have hsecret : development.security.secret ≠ "" := by decide
  exact ⟨haccepted, hsecret, (issues_tokens_iff haccepted hsecret).mpr (by decide)⟩

/-- A lifetime of a hundred million days. -/
def longLifetime : Variables := fun key => if key = "JWT_EXPIRES_IN" then some "100000000d" else none

theorem long_lifetime_stops_issuing :
    ¬ ∀ (vars : Variables) (s : Settings), ofVariables vars = .ok s → s.security.secret ≠ "" →
      ∃ keys, ofSecret s.security.secret s.security.lifetimeSecs = .ok keys ∧ keys.IssuesToYearsEnd := by
  intro law
  let settings : Settings :=
    { development with security := ⟨developmentSecret, 8640000000000, []⟩ }
  have haccepted : ofVariables longLifetime = .ok settings := by rfl
  obtain ⟨keys, hkeys, hissues⟩ := law longLifetime settings haccepted (by decide)
  obtain ⟨-, hlifetime⟩ := ofSecret_eq_ok_iff.mp hkeys
  have hnow := isSome_issue?_iff.mp (hissues 0 (by decide) (by decide) "" "")
  rw [hlifetime] at hnow
  exact absurd hnow (by decide)

end Settings
end JobTrail
