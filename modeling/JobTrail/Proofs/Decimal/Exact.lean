import JobTrail.Proofs.Decimal.Rounding

/-!
# Whole numbers among the doubles

Which whole numbers are doubles, and what becomes of the others. A whole number is a double if what is left of it
without the zeros at its end has at most fifty-three bits, and if it is not too large. Rounding leaves such a
number as it is, and takes every other one to a double that no other double is nearer than.
-/

namespace JobTrail.Binary64

variable {f g : Binary64} {negative : Bool} {bits num den m : Nat} {step n : Int}

/-! ## Magnitudes -/

theorem magnitudeBits_ofMagnitude (h : bits < signBit) : (ofMagnitude negative bits).magnitudeBits = bits := by
  have hword : (if negative then signBit + bits else bits) < 18446744073709551616 := by
    unfold signBit at h ⊢
    split <;> omega
  rw [magnitudeBits, ofMagnitude, UInt64.toNat_ofNat_of_lt' hword]
  unfold signBit at h ⊢
  split <;> omega

theorem isNegative_ofMagnitude (h : bits < signBit) : (ofMagnitude negative bits).isNegative = negative := by
  have hword : (if negative then signBit + bits else bits) < 18446744073709551616 := by
    unfold signBit at h ⊢
    split <;> omega
  rw [isNegative, ofMagnitude, UInt64.toNat_ofNat_of_lt' hword]
  unfold signBit at h ⊢
  cases negative
  · exact decide_eq_false (by simpa using h)
  · exact decide_eq_true (by simp)

theorem magnitude_congr (h : f.magnitudeBits = g.magnitudeBits) : f.magnitude = g.magnitude := by
  simp only [magnitude, significand, exponent, h]

theorem magnitude_nonneg (f : Binary64) : 0 ≤ f.magnitude := by
  unfold magnitude
  positivity

theorem magnitude_eq_zero (h : f.magnitudeBits = 0) : f.magnitude = 0 := by
  have hzero : f.significand = 0 := by
    unfold significand hiddenBit
    split <;> omega
  rw [magnitude, hzero, Nat.cast_zero, zero_mul]

/-- The magnitude that is put together from a step and a multiple of it. -/
theorem magnitude_of_parts (hstep : -1074 ≤ step) (hlow : step = -1074 ∨ 2 ^ 52 ≤ m) (hhigh : m ≤ 2 ^ 53)
    (hbits : f.magnitudeBits = (step + 1074).toNat * hiddenBit + m) : f.magnitude = m * 2 ^ step := by
  unfold hiddenBit at hbits
  rcases Nat.lt_or_ge m (2 ^ 52) with hm | hm
  -- below the least step with all bits
  · have hleast : step = -1074 := hlow.resolve_right (by omega)
    subst hleast
    have hsmall : f.magnitudeBits < hiddenBit := by
      unfold hiddenBit
      omega
    have hself : f.magnitudeBits = m := by omega
    rw [magnitude, significand, exponent, if_pos hsmall, if_pos hsmall, hself]
  rcases Nat.lt_or_ge m (2 ^ 53) with hm' | hm'
  -- all fifty-three bits
  · have hsignificand : f.significand = m := by
      unfold significand hiddenBit
      split <;> omega
    have hexponent : f.exponent = step := by
      unfold exponent hiddenBit
      split <;> omega
    rw [magnitude, hsignificand, hexponent]
  -- one bit more: the foot of the next range
  · have hfull : m = 2 ^ 53 := by omega
    have hsignificand : f.significand = 2 ^ 52 := by
      unfold significand hiddenBit
      split <;> omega
    have hexponent : f.exponent = step + 1 := by
      unfold exponent hiddenBit
      split <;> omega
    rw [magnitude_of_foot hsignificand, hexponent, add_sub_cancel_right, hfull]

/-! ## Values -/

/-- The value of a double that is finite. -/
def value (f : Binary64) : ℚ := if f.isNegative then -f.magnitude else f.magnitude

theorem abs_value (f : Binary64) : |f.value| = f.magnitude := by
  unfold value
  split
  · rw [abs_neg, abs_of_nonneg f.magnitude_nonneg]
  · rw [abs_of_nonneg f.magnitude_nonneg]

/-- A whole number that is a double: fifty-three bits, and zeros behind them. -/
def IsExact (n : Int) : Prop := ∃ m k, m < 2 ^ 53 ∧ k ≤ 971 ∧ n.natAbs = m * 2 ^ k

theorem exists_magnitude {k : Nat} (hm : m < 2 ^ 53) (hk : k ≤ 971) :
    ∃ f : Binary64, f.IsFinite ∧ f.magnitude = m * 2 ^ k := by
  by_cases hzero : m = 0
  · refine ⟨ofMagnitude false 0, by decide, ?_⟩
    rw [magnitude_eq_zero (magnitudeBits_ofMagnitude (by decide)), hzero, Nat.cast_zero, zero_mul]
  -- The bits are moved up until the first of them is the hidden one.
  have hlength : m.log2 ≤ 52 := by
    have hlog := (Nat.log2_lt hzero).mpr hm
    omega
  have hlow : 2 ^ 52 ≤ m * 2 ^ (52 - m.log2) := by
    calc 2 ^ 52 = 2 ^ m.log2 * 2 ^ (52 - m.log2) := by rw [← Nat.pow_add, Nat.add_sub_of_le hlength]
      _ ≤ m * 2 ^ (52 - m.log2) := Nat.mul_le_mul_right _ (Nat.log2_self_le hzero)
  have hhigh : m * 2 ^ (52 - m.log2) < 2 ^ 53 := by
    calc m * 2 ^ (52 - m.log2) < 2 ^ (m.log2 + 1) * 2 ^ (52 - m.log2) :=
          Nat.mul_lt_mul_of_pos_right Nat.lt_log2_self (Nat.two_pow_pos _)
      _ = 2 ^ 53 := by rw [← Nat.pow_add]; congr 1; omega
  have hvalue : ((m * 2 ^ (52 - m.log2) : Nat) : ℚ) * 2 ^ ((k : Int) - (52 - m.log2 : Nat)) = m * 2 ^ k := by
    rw [zpow_sub₀ (by norm_num), zpow_natCast, zpow_natCast]
    push_cast
    field_simp
  generalize m * 2 ^ (52 - m.log2) = digits at *
  have hbits : ((k : Int) - (52 - m.log2 : Nat) + 1074).toNat * hiddenBit + digits < infinityBits := by
    unfold hiddenBit infinityBits
    omega
  have hself := @magnitudeBits_ofMagnitude false _ (hbits.trans (by decide))
  refine ⟨ofMagnitude false _, ?_, (magnitude_of_parts ?_ (.inr hlow) hhigh.le hself).trans hvalue⟩
  · rw [IsFinite, hself]
    exact hbits
  · omega

theorem isExact_of_magnitude (hfinite : f.IsFinite) (h : f.magnitude = n.natAbs) : IsExact n := by
  rcases Int.le_total 0 f.exponent with hexponent | hexponent
  · refine ⟨f.significand, f.exponent.toNat, significand_lt f, ?_, ?_⟩
    · have hle := exponent_le hfinite
      omega
    · rw [magnitude] at h
      obtain ⟨k, hk⟩ := Int.eq_ofNat_of_zero_le hexponent
      rw [hk, Int.toNat_natCast]
      rw [hk, zpow_natCast] at h
      exact_mod_cast h.symm
  · refine ⟨n.natAbs, 0, ?_, by omega, by omega⟩
    have hpow : (2 : ℚ) ^ f.exponent ≤ 1 := zpow_le_one_of_nonpos₀ (by norm_num) hexponent
    have hle : (n.natAbs : ℚ) ≤ f.significand := by
      rw [← h, magnitude]
      exact mul_le_of_le_one_right (Nat.cast_nonneg _) hpow
    have hbound : n.natAbs ≤ f.significand := by exact_mod_cast hle
    exact hbound.trans_lt (significand_lt f)

/-! ## Rounding a quotient -/

theorem nearestBits_le (num den : Nat) : nearestBits num den ≤ infinityBits := by
  unfold nearestBits
  split
  · exact Nat.zero_le _
  · exact Nat.min_le_left _ _

theorem magnitudeBits_nearest (negative : Bool) (num den : Nat) :
    (nearest negative num den).magnitudeBits = nearestBits num den :=
  magnitudeBits_ofMagnitude ((nearestBits_le num den).trans_lt (by decide))

theorem isNegative_nearest (negative : Bool) (num den : Nat) : (nearest negative num den).isNegative = negative :=
  isNegative_ofMagnitude ((nearestBits_le num den).trans_lt (by decide))

/-- No whole number is nearer to a quotient than the nearest one. -/
theorem abs_nearestWhole_sub_le (num : Nat) (hden : 0 < den) (j : Nat) :
    |(nearestWhole num den : ℚ) - num / den| ≤ |(j : ℚ) - num / den| := by
  have hhalf := abs_sub_nearestWhole_le (n := num) hden
  rw [abs_sub_comm] at hhalf
  generalize nearestWhole num den = m at *
  by_cases hj : j = m
  · rw [hj]
  · have hapart : (1 : ℚ) ≤ |(j : ℚ) - m| := by
      have hint : (1 : Int) ≤ |(j : Int) - m| := Int.one_le_abs (by omega)
      exact_mod_cast hint
    have htriangle := abs_sub_le (j : ℚ) (num / den) m
    rw [abs_sub_comm ((num : ℚ) / den) m] at htriangle
    linarith

/-- A magnitude is a multiple of a step, or it lies below all multiples of fifty-three bits. -/
theorem magnitude_grid (g : Binary64) (step : Int) :
    (∃ j : Nat, g.magnitude = j * 2 ^ step) ∨ -1074 < step ∧ g.magnitude ≤ (2 ^ 52 : Nat) * 2 ^ step := by
  rcases Int.lt_or_le g.exponent step with h | h
  · have hge := exponent_ge g
    refine .inr ⟨by omega, ?_⟩
    have hhalf : (2 : ℚ) ^ (g.exponent + 1) ≤ 2 ^ step := zpow_le_zpow_right₀ (by norm_num) h
    rw [zpow_add_one₀ (by norm_num)] at hhalf
    have hshort : (g.significand : ℚ) ≤ 2 ^ 53 := by exact_mod_cast (significand_lt g).le
    calc g.magnitude ≤ 2 ^ 53 * 2 ^ g.exponent := by unfold magnitude; gcongr
      _ = (2 ^ 52 : Nat) * (2 ^ g.exponent * 2) := by push_cast; ring
      _ ≤ (2 ^ 52 : Nat) * 2 ^ step := by gcongr
  · obtain ⟨k, hk⟩ := Int.le.dest h
    refine .inl ⟨g.significand * 2 ^ k, ?_⟩
    rw [magnitude, ← hk, zpow_add₀ (by norm_num), zpow_natCast]
    push_cast
    ring

/-- A quotient is rounded to a multiple of its step, and no other multiple is nearer. -/
structure IsRounded (num den : Nat) (step : Int) (m : Nat) : Prop where
  isStep : IsStep ((num : ℚ) / den) step
  low : step = -1074 ∨ 2 ^ 52 ≤ m
  high : m ≤ 2 ^ 53
  bits : nearestBits num den = min infinityBits ((step + 1074).toNat * hiddenBit + m)
  close : |(num : ℚ) / den / 2 ^ step - m| ≤ 1 / 2
  least : ∀ j : Nat, |(m : ℚ) * 2 ^ step - num / den| ≤ |(j : ℚ) * 2 ^ step - num / den|

theorem exists_isRounded (hnum : num ≠ 0) (hden : den ≠ 0) : ∃ step m, IsRounded num den step m := by
  obtain ⟨step, hstep, hround⟩ := roundRatio_spec hnum hden
  have hpow : (0 : ℚ) < 2 ^ step := by positivity
  have hpos : 0 < den * Nat.pow 2 step.toNat :=
    Nat.mul_pos (Nat.pos_of_ne_zero hden) (Nat.pow_pos (by norm_num))
  have hscaled := scaled_eq (by norm_num : 0 < 2) num den step
  have hclose := abs_sub_nearestWhole_le (n := num * Nat.pow 2 (-step).toNat) hpos
  have hleast := abs_nearestWhole_sub_le (num * Nat.pow 2 (-step).toNat) hpos
  rw [hscaled] at hclose hleast
  push_cast at hclose hleast
  have hbits : nearestBits num den = min infinityBits ((step + 1074).toNat * hiddenBit
      + nearestWhole (num * Nat.pow 2 (-step).toNat) (den * Nat.pow 2 step.toNat)) := by
    rw [nearestBits, if_neg hnum, hround]
  generalize nearestWhole (num * Nat.pow 2 (-step).toNat) (den * Nat.pow 2 step.toNat) = m at *
  refine ⟨step, m, hstep, ?_, ?_, hbits, hclose, fun j => ?_⟩
  · refine hstep.below.imp_right fun hbelow => ?_
    have hmore : (2 : ℚ) ^ 52 ≤ num / den / 2 ^ step := (le_div_iff₀ hpow).mpr hbelow
    by_contra hless
    have hcast : (m : ℚ) + 1 ≤ 2 ^ 52 := by exact_mod_cast Nat.lt_of_not_le hless
    have hapart := (abs_le.mp hclose).2
    linarith
  · have hquot : (num : ℚ) / den / 2 ^ step < 2 ^ 53 := (div_lt_iff₀ hpow).mpr hstep.above
    by_contra hmore
    have hcast : (2 : ℚ) ^ 53 + 1 ≤ m := by exact_mod_cast Nat.lt_of_not_le hmore
    have hapart := (abs_le.mp hclose).1
    linarith
  · have hsplit : ∀ i : Nat, |(i : ℚ) * 2 ^ step - num / den| = |(i : ℚ) - num / den / 2 ^ step| * 2 ^ step := by
      intro i
      rw [← abs_of_pos hpow, ← abs_mul, abs_of_pos hpow, sub_mul, div_mul_cancel₀ _ hpow.ne']
    rw [hsplit, hsplit]
    exact mul_le_mul_of_nonneg_right (hleast j) hpow.le

theorem IsRounded.magnitude (h : IsRounded num den step m) (hfinite : (nearest negative num den).IsFinite) :
    (nearest negative num den).magnitude = m * 2 ^ step := by
  have hbits := magnitudeBits_nearest negative num den
  rw [h.bits] at hbits
  rw [IsFinite, hbits] at hfinite
  refine magnitude_of_parts h.isStep.least h.low h.high (hbits.trans (Nat.min_eq_right ?_))
  omega

/-- What is not rounded to a finite double is half a step or less from being larger than all of them. -/
theorem le_of_not_isFinite_nearest (hden : den ≠ 0) (hinfinite : ¬ (nearest negative num den).IsFinite) :
    ((2 ^ 54 - 1) * 2 ^ 970 : ℚ) ≤ num / den := by
  rw [IsFinite, magnitudeBits_nearest] at hinfinite
  have hnum : num ≠ 0 := by
    rintro rfl
    exact hinfinite (by rw [nearestBits, if_pos rfl]; decide)
  obtain ⟨step, m, hrounded⟩ := exists_isRounded hnum hden
  have hpow : (0 : ℚ) < 2 ^ step := by positivity
  have hhigh := hrounded.high
  rw [hrounded.bits] at hinfinite
  unfold infinityBits hiddenBit at hinfinite
  rcases Int.lt_or_le 971 step with hstep | hstep
  · have hfoot := hrounded.isStep.below.resolve_left (by omega)
    have hmono : (2 : ℚ) ^ (972 : Int) ≤ 2 ^ step := zpow_le_zpow_right₀ (by norm_num) (by omega)
    have hfour : (2 : ℚ) ^ (972 : Int) = 4 * 2 ^ 970 := by
      rw [show (972 : Int) = 2 + (970 : Nat) by rfl, zpow_add₀ (by norm_num), zpow_natCast]
      norm_num only
    calc ((2 ^ 54 - 1) * 2 ^ 970 : ℚ) ≤ 2 ^ 52 * (4 * 2 ^ 970) := by
          rw [← mul_assoc]
          gcongr
          norm_num
      _ = 2 ^ 52 * 2 ^ (972 : Int) := by rw [hfour]
      _ ≤ 2 ^ 52 * 2 ^ step := by gcongr
      _ ≤ num / den := hfoot
  · have hlast : step = 971 := by omega
    subst hlast
    have hfull : (m : ℚ) = 2 ^ 53 := by
      have hnat : m = 2 ^ 53 := by omega
      exact_mod_cast hnat
    have hclose := (abs_le.mp hrounded.close).1
    rw [hfull] at hclose
    have htwo : (2 : ℚ) ^ (971 : Int) = 2 * 2 ^ 970 := by
      rw [show (971 : Int) = 1 + (970 : Nat) by rfl, zpow_add₀ (by norm_num), zpow_natCast, zpow_one]
    calc ((2 ^ 54 - 1) * 2 ^ 970 : ℚ) = (2 ^ 53 - 1 / 2) * 2 ^ (971 : Int) := by
          rw [htwo, ← mul_assoc]
          norm_num only
      _ ≤ num / den / 2 ^ (971 : Int) * 2 ^ (971 : Int) := by
          apply mul_le_mul_of_nonneg_right _ hpow.le
          linarith
      _ = num / den := div_mul_cancel₀ _ hpow.ne'

/-- No magnitude is nearer to a quotient than the one it is rounded to. -/
theorem abs_magnitude_nearest_le (hden : den ≠ 0) (hfinite : (nearest negative num den).IsFinite) (g : Binary64) :
    |(nearest negative num den).magnitude - num / den| ≤ |g.magnitude - num / den| := by
  by_cases hnum : num = 0
  · have hzero : (nearest negative num den).magnitude = 0 := by
      apply magnitude_eq_zero
      rw [magnitudeBits_nearest, nearestBits, if_pos hnum]
    rw [hzero, hnum, Nat.cast_zero, zero_div, sub_zero, abs_zero]
    exact abs_nonneg _
  obtain ⟨step, m, hrounded⟩ := exists_isRounded hnum hden
  rw [hrounded.magnitude hfinite]
  rcases magnitude_grid g step with ⟨j, hj⟩ | ⟨hmore, hbelow⟩
  · rw [hj]
    exact hrounded.least j
  · have hfoot : ((2 ^ 52 : Nat) : ℚ) * 2 ^ step ≤ num / den := by
      have hbound := hrounded.isStep.below.resolve_left (by omega)
      exact_mod_cast hbound
    calc |(m : ℚ) * 2 ^ step - num / den| ≤ |((2 ^ 52 : Nat) : ℚ) * 2 ^ step - num / den| := hrounded.least (2 ^ 52)
      _ = num / den - (2 ^ 52 : Nat) * 2 ^ step := by rw [abs_sub_comm, abs_of_nonneg (by linarith)]
      _ ≤ num / den - g.magnitude := sub_le_sub_left hbelow _
      _ ≤ |g.magnitude - num / den| := by
          rw [abs_sub_comm]
          exact le_abs_self _

/-- A quotient that is the magnitude of a double is not changed. -/
theorem nearestBits_of_magnitude (hden : den ≠ 0) (hfinite : f.IsFinite) (h : f.magnitude = num / den) :
    nearestBits num den = f.magnitudeBits := by
  by_cases hzero : f.magnitudeBits = 0
  · have hnum : (num : ℚ) / den = 0 := by rw [← h, magnitude_eq_zero hzero]
    have hnum' : num = 0 := by
      rcases div_eq_zero_iff.mp hnum with hnum | hnum
      · exact_mod_cast hnum
      · exact absurd (by exact_mod_cast hnum) hden
    rw [hzero, nearestBits, if_pos hnum']
  · apply nearestBits_of_close hfinite hzero hden
    have hpos := magnitude_pos hzero
    rw [h, sub_self, abs_zero, ← h]
    positivity

/-! ## Rounding a number with a sign -/

def signed (negative : Bool) (x : ℚ) : ℚ := if negative then -x else x

theorem abs_signed (negative : Bool) {x : ℚ} (hx : 0 ≤ x) : |signed negative x| = x := by
  cases negative
  · exact abs_of_nonneg hx
  · exact (abs_neg x).trans (abs_of_nonneg hx)

theorem abs_signed_sub_signed (x y : ℚ) : |signed negative x - signed negative y| = |x - y| := by
  cases negative
  · rfl
  · rw [signed, signed, if_pos rfl, if_pos rfl, neg_sub_neg, abs_sub_comm]

theorem value_nearest (negative : Bool) (num den : Nat) :
    (nearest negative num den).value = signed negative (nearest negative num den).magnitude := by
  rw [value, isNegative_nearest, signed]

/-- A double that no other one is nearer than. -/
structure IsNearest (f : Binary64) (x : ℚ) : Prop where
  finite : f.IsFinite
  least : ∀ g : Binary64, g.IsFinite → |f.value - x| ≤ |g.value - x|

theorem isNearest_nearest (hden : den ≠ 0) (hfinite : (nearest negative num den).IsFinite) :
    (nearest negative num den).IsNearest (signed negative (num / den)) := by
  refine ⟨hfinite, fun g _ => ?_⟩
  have hnonneg : (0 : ℚ) ≤ num / den := by positivity
  calc |(nearest negative num den).value - signed negative (num / den)|
      = |(nearest negative num den).magnitude - num / den| := by rw [value_nearest, abs_signed_sub_signed]
    _ ≤ |g.magnitude - num / den| := abs_magnitude_nearest_le hden hfinite g
    _ = |abs g.value - abs (signed negative (num / den))| := by rw [abs_value, abs_signed negative hnonneg]
    _ ≤ |g.value - signed negative (num / den)| := abs_abs_sub_abs_le _ _

/-- A whole number stays as it is exactly if it is a double. -/
theorem value_nearest_eq_iff (hden : den ≠ 0) (h : signed negative (num / den) = n) :
    (nearest negative num den).IsFinite ∧ (nearest negative num den).value = n ↔ IsExact n := by
  have habs : (num : ℚ) / den = n.natAbs := by
    rw [← abs_signed negative (by positivity : (0 : ℚ) ≤ num / den), h, ← Int.cast_abs,
      Int.abs_eq_natAbs, Int.cast_natCast]
  constructor
  · rintro ⟨hfinite, hvalue⟩
    apply isExact_of_magnitude hfinite
    rw [← abs_value, hvalue, ← h, abs_signed negative (by positivity), habs]
  · rintro ⟨m, k, hm, hk, hn⟩
    obtain ⟨f, hfinite, hmagnitude⟩ := exists_magnitude hm hk
    have hquot : f.magnitude = num / den := by
      rw [hmagnitude, habs, hn]
      push_cast
      rfl
    have hbits : (nearest negative num den).magnitudeBits = f.magnitudeBits := by
      rw [magnitudeBits_nearest, nearestBits_of_magnitude hden hfinite hquot]
    constructor
    · rw [IsFinite, hbits]
      exact hfinite
    · rw [value_nearest, magnitude_congr hbits, hquot, h]

theorem signed_natAbs (n : Int) : signed (decide (n < 0)) ((n.natAbs : Nat) / (1 : Nat)) = n := by
  rw [Nat.cast_one, div_one, signed, Nat.cast_natAbs, Int.cast_abs]
  split
  · rename_i hnegative
    have hcast : (n : ℚ) < 0 := by exact_mod_cast of_decide_eq_true hnegative
    rw [abs_of_neg hcast, neg_neg]
  · rename_i hnonneg
    have hcast : (0 : ℚ) ≤ n := by
      exact_mod_cast Int.not_lt.mp (of_decide_eq_false (Bool.eq_false_of_not_eq_true hnonneg))
    rw [abs_of_nonneg hcast]

/-- A decimal is rounded as a quotient of its value is. -/
theorem exists_nearest_ofDecimal (negative : Bool) (digits : Nat) (scale : Int) :
    ∃ num den : Nat, den ≠ 0 ∧ (num : ℚ) / den = digits * 10 ^ scale ∧
      ofDecimal negative digits scale = nearest negative num den := by
  by_cases hdigits : digits = 0
  · refine ⟨0, 1, Nat.one_ne_zero, by simp [hdigits], ?_⟩
    simp [ofDecimal, hdigits, nearest, nearestBits]
  · exact ⟨_, _, (Nat.pow_pos (by norm_num)).ne', decimal_eq digits scale, ofDecimal_eq negative hdigits scale⟩

end JobTrail.Binary64
