import JobTrail.Decimal.Shortest
import JobTrail.Proofs.Decimal.Rounding

/-!
# Shortest decimals read back

The decimal that is written for a double denotes that double. A decimal of fewer digits is written only if it
was tried and does; what is left is that seventeen digits are always enough. The neighbour of the value on
the grid of seventeen digits is at most half a grid step away, and that is less than one part in `2 ^ 54`.
-/

namespace JobTrail.Binary64

variable {f : Binary64} {scale top : Int}

/-! ## The leading power of ten -/

/-- Powers of ten are compared with powers of two by `2 ^ 93 < 10 ^ 28` and `10 ^ 59 < 2 ^ 196`. -/
theorem ten_zpow_le_two_zpow {guess binary : Int} (hguess : 100000 * guess ≤ 30103 * binary)
    (hlow : -2000 ≤ binary) (hhigh : binary ≤ 2000) : (10 : ℚ) ^ (guess - 1) ≤ 2 ^ (binary - 1) := by
  have hten : ∀ k : Nat, ((10 : ℚ) ^ (guess - 1)) ^ k = (10 ^ k) ^ (guess - 1) := by
    intro k
    rw [← zpow_natCast, ← zpow_natCast, ← zpow_mul, ← zpow_mul, mul_comm]
  have htwo : ∀ k : Nat, ((2 : ℚ) ^ (binary - 1)) ^ k = 2 ^ ((k : Int) * (binary - 1)) := by
    intro k
    rw [← zpow_natCast, ← zpow_mul, mul_comm]
  rcases Int.le_total 0 (guess - 1) with h | h
  · apply (pow_le_pow_iff_left₀ (by positivity) (by positivity) (n := 59) (by norm_num)).mp
    calc ((10 : ℚ) ^ (guess - 1)) ^ 59 = (10 ^ 59) ^ (guess - 1) := hten 59
      _ ≤ (2 ^ 196) ^ (guess - 1) := zpow_le_zpow_left₀ h (by norm_num) (by norm_num)
      _ = 2 ^ (196 * (guess - 1)) := by rw [zpow_mul]; norm_num
      _ ≤ 2 ^ (((59 : Nat) : Int) * (binary - 1)) := zpow_le_zpow_right₀ (by norm_num) (by omega)
      _ = (2 ^ (binary - 1)) ^ 59 := (htwo 59).symm
  · apply (pow_le_pow_iff_left₀ (by positivity) (by positivity) (n := 28) (by norm_num)).mp
    calc ((10 : ℚ) ^ (guess - 1)) ^ 28 = (10 ^ 28) ^ (guess - 1) := hten 28
      _ ≤ (2 ^ 93) ^ (guess - 1) := by
          rw [← neg_neg (guess - 1), zpow_neg, zpow_neg (2 ^ 93)]
          have hpow : ((2 : ℚ) ^ 93) ^ (-(guess - 1)) ≤ (10 ^ 28) ^ (-(guess - 1)) :=
            zpow_le_zpow_left₀ (by omega) (by norm_num) (by norm_num)
          exact inv_anti₀ (by positivity) hpow
      _ = 2 ^ (93 * (guess - 1)) := by rw [zpow_mul]; norm_num
      _ ≤ 2 ^ (((28 : Nat) : Int) * (binary - 1)) := zpow_le_zpow_right₀ (by norm_num) (by omega)
      _ = (2 ^ (binary - 1)) ^ 28 := (htwo 28).symm

theorem log2_two_pow (k : Nat) : (Nat.pow 2 k).log2 = k := Nat.log2_two_pow

theorem ratio_ne_zero (hnonzero : f.magnitudeBits ≠ 0) : f.ratio.1 ≠ 0 ∧ f.ratio.2 ≠ 0 := by
  constructor
  · exact Nat.mul_ne_zero (significand_pos hnonzero).ne' (Nat.pow_pos (by norm_num)).ne'
  · exact (Nat.pow_pos (by norm_num)).ne'

/-- The lengths of the parts of the ratio stay far below the bound of the comparison. -/
theorem log2_ratio_le (hfinite : f.IsFinite) (hnonzero : f.magnitudeBits ≠ 0) :
    f.ratio.1.log2 ≤ 1023 ∧ f.ratio.2.log2 ≤ 1074 := by
  have hleast := exponent_ge f
  have hmost := exponent_le hfinite
  constructor
  · have hbound : f.ratio.1 < 2 ^ (53 + f.exponent.toNat) := by
      rw [Nat.pow_add]
      exact Nat.mul_lt_mul_of_pos_right (significand_lt f) (Nat.pow_pos (by norm_num))
    have hlog := (Nat.log2_lt (ratio_ne_zero hnonzero).1).mpr hbound
    omega
  · rw [ratio, log2_two_pow]
    omega

theorem reaches_iff (hnonzero : f.magnitudeBits ≠ 0) (e : Int) :
    f.ratio.2 * Nat.pow 10 e.toNat ≤ f.ratio.1 * Nat.pow 10 (-e).toNat ↔ (10 : ℚ) ^ e ≤ f.magnitude := by
  have h := scaled_lt_iff (by norm_num : 0 < 10) f.ratio.1 (ratio_ne_zero hnonzero).2 e 1
  rw [Nat.mul_one, ratio_eq, Nat.cast_one, one_mul] at h
  rw [← not_lt, h, not_lt]
  norm_num

theorem ten_zpow_leadingExponent_le (hfinite : f.IsFinite) (hnonzero : f.magnitudeBits ≠ 0) :
    (10 : ℚ) ^ f.leadingExponent ≤ f.magnitude := by
  obtain ⟨hnum, hden⟩ := ratio_ne_zero hnonzero
  obtain ⟨hlow, -⟩ := quotient_bounds hnum hden
  obtain ⟨hnumLog, hdenLog⟩ := log2_ratio_le hfinite hnonzero
  rw [ratio_eq] at hlow
  unfold leadingExponent
  dsimp only
  generalize hbinary : (f.ratio.1.log2 : Int) - f.ratio.2.log2 = binary at *
  have hguess : 100000 * (binary * 30103 / 100000) ≤ 30103 * binary := by omega
  generalize binary * 30103 / 100000 = guess at *
  simp only [decide_eq_true_eq, reaches_iff hnonzero]
  split
  · rename_i h
    exact h
  split
  · rename_i h
    exact h
  · exact (ten_zpow_le_two_zpow hguess (by omega) (by omega)).trans hlow.le

/-! ## Seventeen digits are enough -/

theorem nearestWhole_mem_gridNeighbours (f : Binary64) (scale : Int) :
    nearestWhole (f.ratio.1 * Nat.pow 10 (-scale).toNat) (f.ratio.2 * Nat.pow 10 scale.toNat)
      ∈ f.gridNeighbours scale := by
  unfold gridNeighbours
  dsimp only
  generalize f.ratio.1 * Nat.pow 10 (-scale).toNat = n
  generalize f.ratio.2 * Nat.pow 10 scale.toNat = m
  have hcases : nearestWhole n m = n / m ∨ nearestWhole n m = n / m + 1 := by
    unfold nearestWhole
    dsimp only
    split
    · exact .inr rfl
    · exact .inl rfl
  by_cases h : nearestWhole n m = n / m
  · simp [h]
  · simp [hcases.resolve_left h]

/-- On the grid of seventeen digits the nearer neighbour of the value denotes the double. -/
theorem exists_neighbour (hfinite : f.IsFinite) (hnonzero : f.magnitudeBits ≠ 0)
    (htop : (10 : ℚ) ^ top ≤ f.magnitude) :
    ∃ digits ∈ f.gridNeighbours (top - 16), f.readsBack (top - 16) digits = true := by
  refine ⟨_, nearestWhole_mem_gridNeighbours f (top - 16), decide_eq_true ?_⟩
  have hgrid : (10 : ℚ) ^ top = 10 ^ (top - 16) * 10 ^ 16 := by
    rw [← zpow_natCast, ← zpow_add₀ (by norm_num)]
    norm_num
  generalize top - 16 = scale at *
  have hpow : (0 : ℚ) < 10 ^ scale := by positivity
  have hpos : 0 < f.ratio.2 * Nat.pow 10 scale.toNat :=
    Nat.mul_pos (Nat.pos_of_ne_zero (ratio_ne_zero hnonzero).2) (Nat.pow_pos (by norm_num))
  have hhalf := abs_sub_nearestWhole_le (n := f.ratio.1 * Nat.pow 10 (-scale).toNat) hpos
  have hscaled := scaled_eq (by norm_num : 0 < 10) f.ratio.1 f.ratio.2 scale
  generalize nearestWhole (f.ratio.1 * Nat.pow 10 (-scale).toNat) (f.ratio.2 * Nat.pow 10 scale.toNat) = digits at *
  rw [ratio_eq] at hscaled
  rw [hscaled] at hhalf
  apply ofDecimal_of_close hfinite hnonzero
  have hsplit : digits * (10 : ℚ) ^ scale - f.magnitude = (digits - f.magnitude / 10 ^ scale) * 10 ^ scale := by
    field_simp
  have hdistance : |digits * (10 : ℚ) ^ scale - f.magnitude| ≤ 1 / 2 * 10 ^ scale := by
    rw [hsplit, abs_mul, abs_of_pos hpow, abs_sub_comm]
    exact mul_le_mul_of_nonneg_right hhalf hpow.le
  apply hdistance.trans_lt
  rw [hgrid] at htop
  norm_num at htop ⊢
  linarith

theorem shortestFrom_readsBack {limit count : Nat} (hcount : count ≤ 16) (hlimit : 16 < count + limit)
    (h : ∃ digits ∈ f.gridNeighbours (top - 16), f.readsBack (top - 16) digits = true) :
    f.readsBack (f.shortestFrom top limit count).scale (f.shortestFrom top limit count).digits = true := by
  induction limit generalizing count with
  | zero => omega
  | succ limit ih =>
    unfold shortestFrom
    dsimp only
    cases hfound : (f.gridNeighbours (top - count)).find? (f.readsBack (top - count)) with
    | some digits => exact List.find?_some hfound
    | none =>
      have hmore : count ≠ 16 := by
        rintro rfl
        obtain ⟨digits, hmem, hreads⟩ := h
        exact absurd hreads (by simpa using List.find?_eq_none.mp hfound digits hmem)
      exact ih (by omega) (by omega)

/-- The decimal that is written for a double denotes it. -/
theorem ofDecimal_shortest (hfinite : f.IsFinite) (hnonzero : f.magnitudeBits ≠ 0) :
    ofDecimal f.isNegative f.shortest.digits f.shortest.scale = f := by
  have h := exists_neighbour hfinite hnonzero (ten_zpow_leadingExponent_le hfinite hnonzero)
  exact of_decide_eq_true (shortestFrom_readsBack (by omega) (by omega) h)

end JobTrail.Binary64
