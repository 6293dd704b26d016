import JobTrail.Decimal.Binary64
import Mathlib

/-!
# The nearest double

Which double a quotient is rounded to. The step of the rounding is the power of two that gives a quotient
fifty-three bits, or the least step there is; it depends on the value of the quotient alone, so quotients of
one value are rounded alike. A quotient that is closer to a finite double than one part in `2 ^ 54` is rounded
to that double: at the foot of a range of doubles the neighbour below is only half a step away, but the
double is then as small as it can be.
-/

namespace JobTrail.Binary64

variable {num den n d k : Nat} {e step : Int}

/-! ## Quotients -/

/-- A quotient over a power, kept in whole numbers by moving the power to the side where it is whole. -/
theorem scaled_eq {base : Nat} (hbase : 0 < base) (num den : Nat) (e : Int) :
    ((num * Nat.pow base (-e).toNat : Nat) : ℚ) / (den * Nat.pow base e.toNat : Nat)
      = (num : ℚ) / den / (base : ℚ) ^ e := by
  have hpos : (0 : ℚ) < base := by exact_mod_cast hbase
  rcases Int.le_total 0 e with h | h
  · obtain ⟨k, rfl⟩ := Int.eq_ofNat_of_zero_le h
    have hneg : (-(k : Int)).toNat = 0 := by omega
    rw [hneg]
    simp [div_div]
  · obtain ⟨k, hk⟩ : ∃ k : Nat, e = -(k : Int) := ⟨(-e).toNat, by omega⟩
    subst hk
    have hneg : (-(k : Int)).toNat = 0 := by omega
    rw [hneg]
    simp [div_eq_mul_inv, mul_right_comm]

theorem nearestWhole_eq (hlow : 2 * (k * d) < 2 * n + d) (hhigh : 2 * n < 2 * (k * d) + d) :
    nearestWhole n d = k := by
  have hpos : 0 < d := by omega
  have hsplit := Nat.div_add_mod n d
  have hrest := Nat.mod_lt n hpos
  rw [Nat.mul_comm] at hsplit
  unfold nearestWhole
  dsimp only
  generalize n / d = whole at *
  generalize n % d = rest at *
  rcases Nat.lt_trichotomy whole k with h | h | h
  · have hstep : (whole + 1) * d ≤ k * d := Nat.mul_le_mul_right d h
    rw [Nat.add_mul, Nat.one_mul] at hstep
    have hup : d < 2 * rest := by omega
    have hlast : ¬ whole + 1 < k := by
      intro hlt
      have hmore := Nat.mul_le_mul_right d hlt
      simp only [Nat.succ_eq_add_one, Nat.add_mul, Nat.one_mul] at hmore
      omega
    rw [if_pos (.inl hup)]
    omega
  · subst h
    rw [if_neg (by omega)]
  · have hstep : (k + 1) * d ≤ whole * d := Nat.mul_le_mul_right d h
    rw [Nat.add_mul, Nat.one_mul] at hstep
    omega

/-- The whole number nearest to a quotient, when no other is as near. -/
theorem nearestWhole_of_abs_lt (hd : 0 < d) (h : |(n : ℚ) / d - k| < 1 / 2) : nearestWhole n d = k := by
  have hpos : (0 : ℚ) < d := by exact_mod_cast hd
  obtain ⟨hlow, hhigh⟩ := abs_lt.mp h
  have hlow' : (k - 1 / 2 : ℚ) < n / d := by linarith
  have hhigh' : (n : ℚ) / d < k + 1 / 2 := by linarith
  rw [lt_div_iff₀ hpos] at hlow'
  rw [div_lt_iff₀ hpos] at hhigh'
  apply nearestWhole_eq
  · have hless : (2 * (k * d) : ℚ) < 2 * n + d := by linarith
    exact_mod_cast hless
  · have hmore : (2 * n : ℚ) < 2 * (k * d) + d := by linarith
    exact_mod_cast hmore

theorem nearestWhole_mul_right {c : Nat} (hc : 0 < c) (n d : Nat) :
    nearestWhole (n * c) (d * c) = nearestWhole n d := by
  have hless : d * c < 2 * (n % d * c) ↔ d < 2 * (n % d) := by
    rw [← Nat.mul_assoc]
    exact Nat.mul_lt_mul_right hc
  have hequal : 2 * (n % d * c) = d * c ↔ 2 * (n % d) = d := by
    rw [← Nat.mul_assoc]
    exact Nat.mul_left_inj (by omega)
  simp only [nearestWhole, Nat.mul_div_mul_right n d hc, Nat.mul_mod_mul_right, hless, hequal]

/-- Quotients of one value have the same nearest whole number. -/
theorem nearestWhole_congr {n' d' : Nat} (hd : 0 < d) (hd' : 0 < d') (h : n * d' = n' * d) :
    nearestWhole n d = nearestWhole n' d' := by
  rw [← nearestWhole_mul_right hd' n d, h, Nat.mul_comm d d', nearestWhole_mul_right hd]

/-- The whole number nearest to a quotient is at most half a unit away. -/
theorem abs_sub_nearestWhole_le (hd : 0 < d) : |(n : ℚ) / d - nearestWhole n d| ≤ 1 / 2 := by
  have hpos : (0 : ℚ) < d := by exact_mod_cast hd
  have hsplit : ((d * (n / d) + n % d : Nat) : ℚ) = n := by rw [Nat.div_add_mod]
  have hrest : ((n % d : Nat) : ℚ) < d := by exact_mod_cast Nat.mod_lt n hd
  have hnonneg : (0 : ℚ) ≤ (n % d : Nat) := Nat.cast_nonneg _
  push_cast at hsplit
  have hquot : (n : ℚ) / d = (n / d : Nat) + (n % d : Nat) / (d : ℚ) := by
    rw [← hsplit]
    field_simp
  rw [nearestWhole, hquot]
  generalize n / d = whole at *
  generalize n % d = rest at *
  split
  · rename_i hup
    have hwhole : d ≤ 2 * rest := by omega
    have hhalf : (d : ℚ) ≤ 2 * rest := by exact_mod_cast hwhole
    have hbelow : (rest : ℚ) / d ≤ 1 := (div_le_one hpos).mpr hrest.le
    have habove : 1 / 2 ≤ (rest : ℚ) / d := by
      rw [le_div_iff₀ hpos]
      linarith
    push_cast
    rw [abs_le]
    constructor <;> linarith
  · rename_i hdown
    have hwhole : 2 * rest ≤ d := by omega
    have hhalf : (2 * rest : ℚ) ≤ d := by exact_mod_cast hwhole
    have hbelow : (rest : ℚ) / d ≤ 1 / 2 := by
      rw [div_le_iff₀ hpos]
      linarith
    have habove : 0 ≤ (rest : ℚ) / d := by positivity
    rw [abs_le]
    constructor <;> linarith

/-! ## The step of the rounding -/

variable {x : ℚ} {other : Int}

/-- A value has fifty-three bits over its step, unless the step is the least there is. -/
structure IsStep (x : ℚ) (step : Int) : Prop where
  least : -1074 ≤ step
  above : x < 2 ^ 53 * 2 ^ step
  below : step = -1074 ∨ 2 ^ 52 * 2 ^ step ≤ x

theorem IsStep.le (h : IsStep x step) (h' : IsStep x other) : other ≤ step := by
  by_contra hlt
  have hmore : (2 : ℚ) ^ 52 * 2 ^ other ≤ x := h'.below.resolve_left (by have := h.least; omega)
  have hdouble : (2 : ℚ) ^ (step + 1) ≤ 2 ^ other := zpow_le_zpow_right₀ (by norm_num) (by omega)
  rw [zpow_add_one₀ (by norm_num)] at hdouble
  have habove := h.above
  linarith

theorem IsStep.unique (h : IsStep x step) (h' : IsStep x other) : step = other := by
  have hle := h.le h'
  have hge := h'.le h
  omega

theorem cast_lt_two_zpow (hnum : num ≠ 0) :
    (2 : ℚ) ^ (num.log2 : Int) ≤ num ∧ (num : ℚ) < 2 ^ (num.log2 + 1 : Int) := by
  constructor
  · rw [zpow_natCast]
    exact_mod_cast Nat.log2_self_le hnum
  · have hlt : num < 2 ^ (num.log2 + 1) := Nat.lt_log2_self
    exact_mod_cast hlt

/-- The value of a quotient by the lengths of its parts, up to a factor of two. -/
theorem quotient_bounds (hnum : num ≠ 0) (hden : den ≠ 0) :
    (2 : ℚ) ^ ((num.log2 : Int) - den.log2 - 1) < num / den ∧
      (num : ℚ) / den < 2 ^ ((num.log2 : Int) - den.log2 + 1) := by
  obtain ⟨hnumLow, hnumHigh⟩ := cast_lt_two_zpow hnum
  obtain ⟨hdenLow, hdenHigh⟩ := cast_lt_two_zpow hden
  have hpos : (0 : ℚ) < den := by exact_mod_cast Nat.pos_of_ne_zero hden
  constructor
  · rw [lt_div_iff₀ hpos]
    calc (2 : ℚ) ^ ((num.log2 : Int) - den.log2 - 1) * den
        < 2 ^ ((num.log2 : Int) - den.log2 - 1) * 2 ^ (den.log2 + 1 : Int) := by gcongr
      _ = 2 ^ (num.log2 : Int) := by
          rw [← zpow_add₀ (by norm_num)]
          congr 1
          omega
      _ ≤ num := hnumLow
  · rw [div_lt_iff₀ hpos]
    calc (num : ℚ) < 2 ^ (num.log2 + 1 : Int) := hnumHigh
      _ = 2 ^ ((num.log2 : Int) - den.log2 + 1) * 2 ^ (den.log2 : Int) := by
          rw [← zpow_add₀ (by norm_num)]
          congr 1
          omega
      _ ≤ 2 ^ ((num.log2 : Int) - den.log2 + 1) * den := by gcongr

theorem scaled_lt_iff {base : Nat} (hbase : 0 < base) (num : Nat) (hden : den ≠ 0) (e : Int) (bound : Nat) :
    num * Nat.pow base (-e).toNat < den * Nat.pow base e.toNat * bound ↔
      (num : ℚ) / den < bound * (base : ℚ) ^ e := by
  have hden' : 0 < den * Nat.pow base e.toNat := Nat.mul_pos (Nat.pos_of_ne_zero hden) (Nat.pow_pos hbase)
  have hpos : (0 : ℚ) < (den * Nat.pow base e.toNat : Nat) := by exact_mod_cast hden'
  have hpow : (0 : ℚ) < (base : ℚ) ^ e := zpow_pos (by exact_mod_cast hbase) e
  rw [← div_lt_iff₀ hpow, ← scaled_eq hbase, div_lt_iff₀ hpos, mul_comm (bound : ℚ)]
  norm_cast

theorem isStep_max (habove : x < 2 ^ 53 * 2 ^ step) (hbelow : 2 ^ 52 * 2 ^ step ≤ x) :
    IsStep x (max (-1074) step) := by
  rcases Int.le_total (-1074) step with h | h
  · rw [max_eq_right h]
    exact ⟨h, habove, .inr hbelow⟩
  · rw [max_eq_left h]
    have hpow : (2 : ℚ) ^ step ≤ 2 ^ (-1074 : Int) := zpow_le_zpow_right₀ (by norm_num) h
    exact ⟨le_refl _, by linarith, .inl rfl⟩

/-- The rounding takes the step of the value, and the nearest multiple of it. -/
theorem roundRatio_spec (hnum : num ≠ 0) (hden : den ≠ 0) :
    ∃ step, IsStep ((num : ℚ) / den) step ∧ roundRatio 53 (-1074) num den
      = (nearestWhole (num * Nat.pow 2 (-step).toNat) (den * Nat.pow 2 step.toNat), step) := by
  obtain ⟨hlow, hhigh⟩ := quotient_bounds hnum hden
  unfold roundRatio
  dsimp only
  generalize hguess : (num.log2 : Int) - den.log2 - (53 - 1 : Nat) = guess
  have hlow' : (2 : ℚ) ^ 51 * 2 ^ guess < num / den := by
    rw [← zpow_natCast, ← zpow_add₀ (by norm_num)]
    convert hlow using 2
    push_cast
    omega
  have hhigh' : (num : ℚ) / den < 2 ^ 53 * 2 ^ guess := by
    rw [← zpow_natCast, ← zpow_add₀ (by norm_num)]
    convert hhigh using 2
    push_cast
    omega
  have htest := scaled_lt_iff (by norm_num : 0 < 2) num hden guess (Nat.pow 2 (53 - 1))
  have hhalf : (2 : ℚ) ^ guess = 2 ^ (guess - 1) * 2 := by
    rw [← zpow_add_one₀ (by norm_num), Int.sub_add_cancel]
  refine ⟨_, ?_, rfl⟩
  push_cast at htest
  split
  · rename_i hshort
    have hless := htest.mp hshort
    apply isStep_max <;> norm_num at hless hlow' ⊢ <;> linarith
  · rename_i hlong
    have hmore := not_lt.mp (htest.not.mp hlong)
    exact isStep_max hhigh' (by norm_num at hmore ⊢; linarith)

theorem roundRatio_eq (hnum : num ≠ 0) (hden : den ≠ 0) (hstep : IsStep (num / den) step) :
    roundRatio 53 (-1074) num den
      = (nearestWhole (num * Nat.pow 2 (-step).toNat) (den * Nat.pow 2 step.toNat), step) := by
  obtain ⟨found, hfound, heq⟩ := roundRatio_spec hnum hden
  rw [heq, hstep.unique hfound]

/-- Quotients of one value are rounded alike. -/
theorem nearestBits_congr {num' den' : Nat} (hden : den ≠ 0) (hden' : den' ≠ 0)
    (h : (num : ℚ) / den = num' / den') : nearestBits num den = nearestBits num' den' := by
  have hcross : num * den' = num' * den := by
    rw [div_eq_div_iff (by exact_mod_cast hden) (by exact_mod_cast hden')] at h
    exact_mod_cast h
  by_cases hnum : num = 0
  · have hnum' : num' = 0 := by
      rw [hnum, Nat.zero_mul] at hcross
      exact (Nat.mul_eq_zero.mp hcross.symm).resolve_right hden
    rw [hnum, hnum', nearestBits, nearestBits, if_pos rfl, if_pos rfl]
  · have hnum' : num' ≠ 0 := by
      intro hzero
      rw [hzero, Nat.zero_mul] at hcross
      exact (Nat.mul_eq_zero.mp hcross).elim hnum hden'
    obtain ⟨step, hstep, heq⟩ := roundRatio_spec hnum hden
    have heq' := roundRatio_eq hnum' hden' (h ▸ hstep)
    have hpow : ∀ k, 0 < Nat.pow 2 k := fun k => Nat.pow_pos (by norm_num)
    have hwhole : nearestWhole (num * Nat.pow 2 (-step).toNat) (den * Nat.pow 2 step.toNat)
        = nearestWhole (num' * Nat.pow 2 (-step).toNat) (den' * Nat.pow 2 step.toNat) := by
      apply nearestWhole_congr
      · exact Nat.mul_pos (Nat.pos_of_ne_zero hden) (hpow _)
      · exact Nat.mul_pos (Nat.pos_of_ne_zero hden') (hpow _)
      · rw [Nat.mul_mul_mul_comm, hcross, Nat.mul_mul_mul_comm]
    rw [nearestBits, nearestBits, if_neg hnum, if_neg hnum', heq, heq', hwhole]

/-- A quotient that is closer to a multiple of its step than to any other is rounded to it. -/
theorem nearestBits_eq (hnum : num ≠ 0) (hden : den ≠ 0) (hstep : IsStep (num / den) step) (m : Nat)
    (hclose : |(num : ℚ) / den - m * 2 ^ step| < 2 ^ step / 2) :
    nearestBits num den = min infinityBits ((step + 1074).toNat * hiddenBit + m) := by
  have hpow : (0 : ℚ) < 2 ^ step := by positivity
  have hpos : 0 < den * Nat.pow 2 step.toNat :=
    Nat.mul_pos (Nat.pos_of_ne_zero hden) (Nat.pow_pos (by norm_num))
  have hwhole : nearestWhole (num * Nat.pow 2 (-step).toNat) (den * Nat.pow 2 step.toNat) = m := by
    apply nearestWhole_of_abs_lt hpos
    have hscaled := scaled_eq (by norm_num : 0 < 2) num den step
    push_cast at hscaled ⊢
    rw [hscaled]
    have hsplit : (num : ℚ) / den / 2 ^ step - m = (num / den - m * 2 ^ step) / 2 ^ step := by
      field_simp
    rw [hsplit, abs_div, abs_of_pos hpow, div_lt_iff₀ hpow]
    linarith
  rw [nearestBits, if_neg hnum, roundRatio_eq hnum hden hstep, hwhole]

/-! ## The value of a double -/

variable {f : Binary64}

def magnitude (f : Binary64) : ℚ := f.significand * 2 ^ f.exponent

theorem ratio_eq (f : Binary64) : (f.ratio.1 : ℚ) / f.ratio.2 = f.magnitude := by
  have hscaled := scaled_eq (by norm_num : 0 < 2) f.significand 1 (-f.exponent)
  rw [Int.neg_neg, Nat.one_mul] at hscaled
  rw [ratio, hscaled, magnitude]
  simp

/-- The parts of a double make up its bits. -/
theorem bits_of_parts (f : Binary64) :
    (f.exponent + 1074).toNat * hiddenBit + f.significand = f.magnitudeBits := by
  unfold exponent significand hiddenBit
  split <;> omega

theorem significand_lt (f : Binary64) : f.significand < 2 ^ 53 := by
  unfold significand hiddenBit
  split <;> omega

theorem significand_pos (h : f.magnitudeBits ≠ 0) : 0 < f.significand := by
  unfold significand hiddenBit
  split <;> omega

theorem exponent_ge (f : Binary64) : -1074 ≤ f.exponent := by
  unfold exponent hiddenBit
  split <;> omega

theorem exponent_le (h : f.IsFinite) : f.exponent ≤ 971 := by
  unfold IsFinite infinityBits at h
  unfold exponent hiddenBit
  split <;> omega

/-- Below the least step a double has fewer bits, above it always fifty-three. -/
theorem exponent_eq_or (f : Binary64) : f.exponent = -1074 ∨ 2 ^ 52 ≤ f.significand := by
  unfold exponent significand hiddenBit
  split <;> omega

theorem magnitude_pos (h : f.magnitudeBits ≠ 0) : 0 < f.magnitude := by
  have hpos : (0 : ℚ) < f.significand := by exact_mod_cast significand_pos h
  unfold magnitude
  positivity

/-- One part in `2 ^ 54` of a double is less than half its step. -/
theorem magnitude_div_lt (f : Binary64) : f.magnitude / 2 ^ 54 < 2 ^ f.exponent / 2 := by
  have hpow : (0 : ℚ) < 2 ^ f.exponent := by positivity
  have hshort : (f.significand : ℚ) + 1 ≤ 2 ^ 53 := by exact_mod_cast significand_lt f
  have hless : (f.significand : ℚ) * 2 ^ f.exponent + 2 ^ f.exponent ≤ 2 ^ 53 * 2 ^ f.exponent := by
    rw [← add_one_mul]
    gcongr
  unfold magnitude
  norm_num at hless ⊢
  linarith

/-! ### The foot of a range -/

theorem two_zpow_exponent (f : Binary64) : (2 : ℚ) ^ f.exponent = 2 ^ (f.exponent - 1) * 2 := by
  rw [← zpow_add_one₀ (by norm_num), Int.sub_add_cancel]

/-- Only the first double of a range has a close value below the range. -/
theorem significand_eq_of_below (hleast : f.exponent ≠ -1074) (hbelow : x < 2 ^ 52 * 2 ^ f.exponent)
    (hclose : |x - f.magnitude| < f.magnitude / 2 ^ 54) : f.significand = 2 ^ 52 := by
  have hpow : (0 : ℚ) < 2 ^ f.exponent := by positivity
  have hfoot := (exponent_eq_or f).resolve_left hleast
  have hhalf := magnitude_div_lt f
  have hlow := (abs_lt.mp hclose).1
  by_contra hne
  have hnext : 2 ^ 52 + 1 ≤ f.significand := by omega
  have hcast : (2 : ℚ) ^ 52 + 1 ≤ f.significand := by exact_mod_cast hnext
  have hmore : ((2 : ℚ) ^ 52 + 1) * 2 ^ f.exponent ≤ f.significand * 2 ^ f.exponent := by gcongr
  unfold magnitude at hlow hhalf
  linarith

theorem magnitude_of_foot (hfirst : f.significand = 2 ^ 52) :
    f.magnitude = (2 ^ 53 : Nat) * 2 ^ (f.exponent - 1) := by
  rw [magnitude, hfirst, two_zpow_exponent]
  push_cast
  ring

theorem bits_of_foot (hfirst : f.significand = 2 ^ 52) (hleast : f.exponent ≠ -1074) :
    (f.exponent - 1 + 1074).toNat * hiddenBit + 2 ^ 53 = f.magnitudeBits := by
  have hge := exponent_ge f
  have hmore : (f.exponent + 1074).toNat = (f.exponent - 1 + 1074).toNat + 1 := by omega
  have hhidden : 1 * hiddenBit + 2 ^ 52 = 2 ^ 53 := by norm_num [hiddenBit]
  rw [← bits_of_parts, hfirst, hmore, Nat.add_mul, Nat.add_assoc, hhidden]

/-- Below the foot of a range the step is half that of the range. -/
theorem isStep_of_below (hleast : f.exponent ≠ -1074) (hbelow : x < 2 ^ 52 * 2 ^ f.exponent)
    (hclose : |x - f.magnitude| < f.magnitude / 2 ^ 54) : IsStep x (f.exponent - 1) := by
  have hge := exponent_ge f
  have hlow := (abs_lt.mp hclose).1
  rw [magnitude_of_foot (significand_eq_of_below hleast hbelow hclose)] at hlow
  rw [two_zpow_exponent] at hbelow
  push_cast at hlow
  refine ⟨by omega, ?_, .inr ?_⟩
  · linarith
  · linarith

/-- A quotient close to a double is rounded to it. -/
theorem nearestBits_of_close (hfinite : f.IsFinite) (hnonzero : f.magnitudeBits ≠ 0) (hden : den ≠ 0)
    (hclose : |(num : ℚ) / den - f.magnitude| < f.magnitude / 2 ^ 54) :
    nearestBits num den = f.magnitudeBits := by
  have hmagnitude := magnitude_pos hnonzero
  have hhalf := magnitude_div_lt f
  obtain ⟨hlow, hhigh⟩ := abs_lt.mp hclose
  have hnum : num ≠ 0 := by
    intro hzero
    rw [hzero] at hlow
    norm_num at hlow
    linarith
  have hbits : min infinityBits f.magnitudeBits = f.magnitudeBits := Nat.min_eq_right (Nat.le_of_lt hfinite)
  by_cases hsame : f.exponent = -1074 ∨ 2 ^ 52 * 2 ^ f.exponent ≤ (num : ℚ) / den
  · have hpow : (0 : ℚ) < 2 ^ f.exponent := by positivity
    have hshort : (f.significand : ℚ) + 1 ≤ 2 ^ 53 := by exact_mod_cast significand_lt f
    have hless : ((f.significand : ℚ) + 1) * 2 ^ f.exponent ≤ 2 ^ 53 * 2 ^ f.exponent := by gcongr
    have hstep : IsStep ((num : ℚ) / den) f.exponent := by
      refine ⟨exponent_ge f, ?_, hsame⟩
      unfold magnitude at hhigh hhalf
      linarith
    rw [nearestBits_eq hnum hden hstep f.significand (hclose.trans hhalf), bits_of_parts, hbits]
  · obtain ⟨hleast, hbelow⟩ := not_or.mp hsame
    have hless := not_le.mp hbelow
    have hfirst := significand_eq_of_below hleast hless hclose
    have hnear : |(num : ℚ) / den - (2 ^ 53 : Nat) * 2 ^ (f.exponent - 1)| < 2 ^ (f.exponent - 1) / 2 := by
      rw [magnitude_of_foot hfirst] at hclose
      apply hclose.trans_le
      push_cast
      linarith
    rw [nearestBits_eq hnum hden (isStep_of_below hleast hless hclose) _ hnear, bits_of_foot hfirst hleast, hbits]

theorem ofMagnitude_magnitudeBits (f : Binary64) : ofMagnitude f.isNegative f.magnitudeBits = f := by
  have hword := f.bits.toNat_lt
  have hbits : (if f.isNegative then signBit + f.magnitudeBits else f.magnitudeBits) = f.bits.toNat := by
    unfold isNegative magnitudeBits signBit
    by_cases h : 9223372036854775808 ≤ f.bits.toNat
    · simp only [h, decide_true, if_true]
      omega
    · simp only [h, decide_false, Bool.false_eq_true, if_false]
      omega
  rw [ofMagnitude, hbits, UInt64.ofNat_toNat]

/-! ## Decimals -/

variable {digits : Nat} {scale : Int}

theorem nearestBits_of_small (hnum : num ≠ 0) (hden : den ≠ 0) (h : (num : ℚ) / den < 2 ^ (-1074 : Int) / 2) :
    nearestBits num den = 0 := by
  have hpow : (0 : ℚ) < 2 ^ (-1074 : Int) := by positivity
  have hnonneg : (0 : ℚ) ≤ num / den := by positivity
  have hstep : IsStep ((num : ℚ) / den) (-1074) := ⟨le_refl _, by linarith, .inl rfl⟩
  have hnear : |(num : ℚ) / den - (0 : Nat) * 2 ^ (-1074 : Int)| < 2 ^ (-1074 : Int) / 2 := by
    rw [Nat.cast_zero, zero_mul, sub_zero, abs_of_nonneg hnonneg]
    exact h
  rw [nearestBits_eq hnum hden hstep 0 hnear]
  rfl

theorem nearestBits_of_large (hnum : num ≠ 0) (hden : den ≠ 0) (h : (2 : ℚ) ^ 1024 ≤ num / den) :
    nearestBits num den = infinityBits := by
  obtain ⟨step, hstep, heq⟩ := roundRatio_spec hnum hden
  have hlarge : 972 ≤ step := by
    by_contra hless
    have hpow : (2 : ℚ) ^ step ≤ 2 ^ (971 : Int) := zpow_le_zpow_right₀ (by norm_num) (by omega)
    have hsplit : (2 : ℚ) ^ 1024 = 2 ^ 53 * 2 ^ (971 : Int) := by
      rw [← zpow_natCast, ← zpow_natCast, ← zpow_add₀ (by norm_num)]
      norm_num
    have hmore : (2 : ℚ) ^ 53 * 2 ^ step ≤ 2 ^ 53 * 2 ^ (971 : Int) := by gcongr
    rw [← hsplit] at hmore
    exact absurd (hstep.above.trans_le hmore) (not_lt.mpr h)
  have hpow : (0 : ℚ) < 2 ^ step := by positivity
  have hbelow := hstep.below.resolve_left (by omega)
  have hpos : 0 < den * Nat.pow 2 step.toNat :=
    Nat.mul_pos (Nat.pos_of_ne_zero hden) (Nat.pow_pos (by norm_num))
  have hdistance := abs_sub_nearestWhole_le (n := num * Nat.pow 2 (-step).toNat) hpos
  rw [nearestBits, if_neg hnum, heq]
  dsimp only
  generalize nearestWhole (num * Nat.pow 2 (-step).toNat) (den * Nat.pow 2 step.toNat) = m at *
  have hscaled := scaled_eq (by norm_num : 0 < 2) num den step
  push_cast at hscaled hdistance
  rw [hscaled] at hdistance
  have hquot : (2 : ℚ) ^ 52 ≤ num / den / 2 ^ step := (le_div_iff₀ hpow).mpr hbelow
  have hm : 2 ^ 52 ≤ m := by
    by_contra hless
    have hnext : m + 1 ≤ 2 ^ 52 := by omega
    have hcast : (m : ℚ) + 1 ≤ 2 ^ 52 := by exact_mod_cast hnext
    have hless' := (abs_le.mp hdistance).2
    linarith
  have hsteps : 2046 ≤ (step + 1074).toNat := by omega
  apply Nat.min_eq_left
  have hbits := Nat.mul_le_mul_right hiddenBit hsteps
  unfold infinityBits
  unfold hiddenBit at hbits ⊢
  omega

/-- The value of the quotient that a decimal makes. -/
theorem decimal_eq (digits : Nat) (scale : Int) :
    ((digits * Nat.pow 10 scale.toNat : Nat) : ℚ) / (Nat.pow 10 (-scale).toNat : Nat) = digits * 10 ^ scale := by
  have hscaled := scaled_eq (by norm_num : 0 < 10) digits 1 (-scale)
  rw [Int.neg_neg, Nat.one_mul] at hscaled
  rw [hscaled]
  simp

theorem cast_lt_ten_zpow (digits : Nat) : (digits : ℚ) < 10 ^ ((digits.log2 : Int) / 3 + 1) := by
  have hbinary : digits < 2 ^ (digits.log2 + 1) := Nat.lt_log2_self
  have hlonger : 2 ^ (digits.log2 + 1) ≤ 2 ^ (3 * (digits.log2 / 3 + 1)) :=
    Nat.pow_le_pow_right (by norm_num) (by omega)
  have height : 2 ^ (3 * (digits.log2 / 3 + 1)) ≤ 10 ^ (digits.log2 / 3 + 1) := by
    rw [Nat.pow_mul]
    exact Nat.pow_le_pow_left (by norm_num) _
  have hexponent : (digits.log2 : Int) / 3 + 1 = ((digits.log2 / 3 + 1 : Nat) : Int) := by omega
  rw [hexponent, zpow_natCast]
  exact_mod_cast hbinary.trans_le (hlonger.trans height)

theorem two_pow_le_ten_pow (k : Nat) : (2 : ℚ) ^ (3 * k) ≤ 10 ^ k := by
  rw [pow_mul]
  gcongr
  norm_num

/-- The digits are counted only to spare large powers: the nearest double is the same. -/
theorem ofDecimal_eq (negative : Bool) (hdigits : digits ≠ 0) (scale : Int) :
    ofDecimal negative digits scale
      = nearest negative (digits * Nat.pow 10 scale.toNat) (Nat.pow 10 (-scale).toNat) := by
  have hvalue := decimal_eq digits scale
  have hnum : digits * Nat.pow 10 scale.toNat ≠ 0 :=
    Nat.mul_ne_zero hdigits (Nat.pow_pos (by norm_num)).ne'
  have hden : Nat.pow 10 (-scale).toNat ≠ 0 := (Nat.pow_pos (by norm_num)).ne'
  have hpow : (0 : ℚ) < 10 ^ scale := by positivity
  unfold ofDecimal
  dsimp only
  split
  · rename_i hsmall
    have htop := hsmall.resolve_left hdigits
    rw [nearest, nearestBits_of_small hnum hden]
    rw [hvalue]
    calc (digits : ℚ) * 10 ^ scale < 10 ^ ((digits.log2 : Int) / 3 + 1) * 10 ^ scale := by
          gcongr
          exact cast_lt_ten_zpow digits
      _ = 10 ^ ((digits.log2 : Int) / 3 + 1 + scale) := by rw [← zpow_add₀ (by norm_num)]
      _ ≤ 10 ^ (-(400 : Nat) : Int) := zpow_le_zpow_right₀ (by norm_num) (by omega)
      _ ≤ 2 ^ (-(3 * 400 : Nat) : Int) := by
          rw [zpow_neg, zpow_neg, zpow_natCast, zpow_natCast]
          gcongr
          exact two_pow_le_ten_pow 400
      _ < 2 ^ (-1074 - 1 : Int) := zpow_lt_zpow_right₀ (by norm_num) (by norm_num)
      _ = 2 ^ (-1074 : Int) / 2 := zpow_sub_one₀ (by norm_num) _
  split
  · rename_i hlarge
    rw [nearest, nearestBits_of_large hnum hden]
    rw [hvalue]
    have hone : (1 : ℚ) ≤ digits := by exact_mod_cast Nat.one_le_iff_ne_zero.mpr hdigits
    calc (2 : ℚ) ^ 1024 ≤ 2 ^ (3 * 400) := pow_le_pow_right₀ (by norm_num) (by norm_num)
      _ ≤ 10 ^ 400 := two_pow_le_ten_pow 400
      _ = 10 ^ ((400 : Nat) : Int) := (zpow_natCast _ _).symm
      _ ≤ 10 ^ scale := zpow_le_zpow_right₀ (by norm_num) (by omega)
      _ ≤ digits * 10 ^ scale := le_mul_of_one_le_left hpow.le hone
  · rfl

/-- Decimals of one value denote one double. -/
theorem ofDecimal_congr (negative : Bool) {digits' : Nat} {scale' : Int} (hdigits : digits ≠ 0)
    (h : (digits : ℚ) * 10 ^ scale = digits' * 10 ^ scale') :
    ofDecimal negative digits scale = ofDecimal negative digits' scale' := by
  have hdigits' : digits' ≠ 0 := by
    rintro rfl
    have hpow : (0 : ℚ) < 10 ^ scale := by positivity
    rw [Nat.cast_zero, zero_mul, mul_eq_zero] at h
    exact h.elim (by exact_mod_cast hdigits) hpow.ne'
  have hden : ∀ e : Int, Nat.pow 10 (-e).toNat ≠ 0 := fun e => (Nat.pow_pos (by norm_num)).ne'
  rw [ofDecimal_eq negative hdigits, ofDecimal_eq negative hdigits', nearest, nearest,
    nearestBits_congr (hden scale) (hden scale') (by rw [decimal_eq, decimal_eq, h])]

/-- A decimal that is close to a double denotes it. -/
theorem ofDecimal_of_close (hfinite : f.IsFinite) (hnonzero : f.magnitudeBits ≠ 0)
    (hclose : |digits * 10 ^ scale - f.magnitude| < f.magnitude / 2 ^ 54) :
    ofDecimal f.isNegative digits scale = f := by
  have hdigits : digits ≠ 0 := by
    rintro rfl
    have hmagnitude := magnitude_pos hnonzero
    rw [Nat.cast_zero, zero_mul, zero_sub, abs_neg, abs_of_pos hmagnitude] at hclose
    norm_num at hclose
    linarith
  have hden : Nat.pow 10 (-scale).toNat ≠ 0 := (Nat.pow_pos (by norm_num)).ne'
  rw [ofDecimal_eq _ hdigits, nearest, nearestBits_of_close hfinite hnonzero hden (by rw [decimal_eq]; exact hclose),
    ofMagnitude_magnitudeBits]

end JobTrail.Binary64
