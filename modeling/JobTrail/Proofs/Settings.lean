import JobTrail.Proofs.Results
import JobTrail.Settings

/-!
# Accepted settings

What the variables say about the lifetime of sessions once they are accepted. A variable that is not set
leaves its default, and one that is set counts only if it can be read.
-/

namespace JobTrail

theorem parseLifetime?_pos {raw : String} {seconds : Int} (h : parseLifetime? raw = some seconds) :
    0 < seconds := by
  obtain ⟨amount, -, h⟩ := Option.bind_eq_some_iff.mp h
  obtain ⟨factor, -, h⟩ := Option.bind_eq_some_iff.mp h
  dsimp only at h
  split at h
  · rename_i hfits
    cases h
    exact hfits.2
  · cases h

namespace Settings

variable {α : Type} {vars : Variables} {s base : Settings}

theorem override_eq_ok_iff {key : String} {parse : String → Option α} {default v : α} :
    override vars key parse default = .ok v ↔
      (vars key = none ∧ v = default) ∨ ∃ raw, vars key = some raw ∧ parse raw = some v := by
  unfold override
  cases vars key with
  | none => simp [eq_comm]
  | some raw => cases hparse : parse raw <;> simp [hparse]

theorem lifetime_of_withOverrides (h : withOverrides vars base = .ok s) :
    override vars "JWT_EXPIRES_IN" parseLifetime? base.security.lifetimeSecs
      = .ok s.security.lifetimeSecs := by
  -- The nine variables that are read before the lifetime have no part in it.
  iterate 9 obtain ⟨_, -, h⟩ := bind_eq_ok.mp h
  obtain ⟨lifetimeSecs, hlifetime, h⟩ := bind_eq_ok.mp h
  cases h
  exact hlifetime

theorem lifetime_defaults (env : Environment) : (defaults env).security.lifetimeSecs = 604800 := by
  cases env <;> rfl

/-- A session lasts a week unless a variable says otherwise. -/
theorem lifetime_cases (h : ofVariables vars = .ok s) :
    (vars "JWT_EXPIRES_IN" = none ∧ s.security.lifetimeSecs = 604800) ∨
      ∃ raw, vars "JWT_EXPIRES_IN" = some raw ∧ parseLifetime? raw = some s.security.lifetimeSecs := by
  obtain ⟨s', hs', h⟩ := bind_eq_ok.mp h
  have hlifetime := override_eq_ok_iff.mp (lifetime_of_withOverrides hs')
  rw [lifetime_defaults] at hlifetime
  split at h
  · cases h
  · cases h
    exact hlifetime

theorem lifetime_pos (h : ofVariables vars = .ok s) : 0 < s.security.lifetimeSecs := by
  rcases lifetime_cases h with ⟨-, hdefault⟩ | ⟨raw, -, hraw⟩
  · omega
  · exact parseLifetime?_pos hraw

end Settings
end JobTrail
