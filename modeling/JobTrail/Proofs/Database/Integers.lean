import JobTrail.Database.Row
import JobTrail.Proofs.Decimal.Spelled

/-!
# Whole numbers between values and storage

Storage has whole numbers of 64 bits with a sign and doubles, and decimals of any size are made into one of the two.
A whole number that has a place in neither is rounded on its way, in both directions: it arrives as the double
nearest to it, and as nothing at all if it is larger than every double.
-/

namespace JobTrail

open Binary64 (IsExact signed)

variable {n : Int} {text : String}

/-! ## What is denoted -/

/-- The double is finite and its value is the number. -/
def Binary64.Denotes (f : Binary64) (n : Int) : Prop := f.IsFinite ∧ f.value = n

def Parameter.Denotes : Parameter → Int → Prop
  | .whole m, n => m = n
  | .real f, n => f.Denotes n
  | .text s, n => SpellsInt s.toList n
  | _, _ => False

def Value.Denotes : Value → Int → Prop
  | .number (.int m), n => m = n
  | .number (.real f), n => f.Denotes n
  | .text s, n => SpellsInt s.toList n
  | _, _ => False

/-! ## Doubles of whole numbers -/

theorem Binary64.denotes_ofInt_iff : (Binary64.ofInt n).Denotes n ↔ IsExact n :=
  Binary64.value_nearest_eq_iff one_ne_zero (Binary64.signed_natAbs n)

/-- Whole numbers of 64 bits are far below the largest double. -/
theorem Binary64.isFinite_ofInt (h : fitsInt64 n ∨ fitsNat64 n) : (Binary64.ofInt n).IsFinite := by
  by_contra hinfinite
  have hlarge := Binary64.le_of_not_isFinite_nearest one_ne_zero hinfinite
  have hnat : n.natAbs ≤ 2 ^ 64 := by
    unfold fitsInt64 fitsNat64 at h
    omega
  have hsmall : (n.natAbs : ℚ) ≤ 2 ^ 64 := by exact_mod_cast hnat
  have hpow : (2 : ℚ) ^ 64 < (2 ^ 54 - 1) * 2 ^ 970 :=
    calc (2 : ℚ) ^ 64 < (2 ^ 54 - 1) * 2 ^ 64 := by norm_num
      _ ≤ (2 ^ 54 - 1) * 2 ^ 970 :=
        mul_le_mul_of_nonneg_left (pow_le_pow_right₀ (by norm_num) (by norm_num)) (by norm_num)
  rw [Nat.cast_one, div_one] at hlarge
  exact absurd (hlarge.trans hsmall) hpow.not_ge

theorem Binary64.isNearest_ofInt (h : fitsInt64 n ∨ fitsNat64 n) : (Binary64.ofInt n).IsNearest n := by
  have hnearest := Binary64.isNearest_nearest one_ne_zero (Binary64.isFinite_ofInt h)
  rwa [Binary64.signed_natAbs] at hnearest

/-! ## Into storage -/

theorem Value.bind_ofInt (n : Int) : (Value.ofInt n).bind = if fitsInt64 n then .whole n else .real (.ofInt n) := rfl

theorem Value.denotes_bind_ofInt_iff : (Value.ofInt n).bind.Denotes n ↔ fitsInt64 n ∨ IsExact n := by
  rw [Value.bind_ofInt]
  split
  · rename_i hfits
    exact ⟨fun _ => .inl hfits, fun _ => rfl⟩
  · rename_i hfits
    exact Binary64.denotes_ofInt_iff.trans (or_iff_right hfits).symm

/-! ## Out of storage -/

theorem Cell.ofNumeric_of_spellsSigned (h : SpellsSigned text.toList n) (hfits : fitsInt64 n) :
    Cell.ofNumeric text = .ofInt n := by
  have hread : readInt64? text.toList = some n :=
    Option.filter_eq_some_iff.mpr ⟨readSigned?_eq_some_iff.mpr h, decide_eq_true hfits⟩
  rw [Cell.ofNumeric, hread]

/-- A decimal that is not digits alone, or too large for 64 bits, is rounded. -/
theorem Cell.ofNumeric_of_spellsInt (h : SpellsInt text.toList n)
    (hunfit : ¬ (SpellsSigned text.toList n ∧ fitsInt64 n)) :
    ∃ (negative : Bool) (num den : Nat), den ≠ 0 ∧ signed negative (num / den) = n
      ∧ Cell.ofNumeric text = Cell.ofReal (.nearest negative num den) := by
  have hnone : readInt64? text.toList = none := by
    rw [readInt64?, Option.filter_eq_none_iff]
    intro m hm
    have hm' := readSigned?_eq_some_iff.mp hm
    have hself := h.eq_of_spellsSigned hm'
    subst hself
    simpa using fun hfits => hunfit ⟨hm', hfits⟩
  obtain ⟨negative, digits, scale, hdecimal, hvalue⟩ := h
  obtain ⟨num, den, hden, hquot, hround⟩ := Binary64.exists_nearest_ofDecimal negative digits scale
  refine ⟨negative, num, den, hden, by rw [hquot, hvalue], ?_⟩
  rw [Cell.ofNumeric, hnone, Binary64.read?_of_spells hdecimal, hround]

theorem Cell.denotes_ofReal_iff {f : Binary64} : (Cell.ofReal f).Denotes n ↔ f.Denotes n := by
  rw [Cell.ofReal]
  split
  · rfl
  · rename_i hinfinite
    exact ⟨False.elim, fun h => hinfinite h.1⟩

theorem Cell.denotes_ofNumeric_iff (h : SpellsInt text.toList n) :
    (Cell.ofNumeric text).Denotes n ↔ SpellsSigned text.toList n ∧ fitsInt64 n ∨ IsExact n := by
  by_cases hfits : SpellsSigned text.toList n ∧ fitsInt64 n
  · rw [Cell.ofNumeric_of_spellsSigned hfits.1 hfits.2]
    exact ⟨fun _ => .inl hfits, fun _ => rfl⟩
  · obtain ⟨negative, num, den, hden, hvalue, hnumeric⟩ := Cell.ofNumeric_of_spellsInt h hfits
    rw [hnumeric, Cell.denotes_ofReal_iff, or_iff_right hfits]
    exact Binary64.value_nearest_eq_iff hden hvalue

/-- What becomes of a decimal: a whole number, the nearest double, or nothing if it is larger than all of them. -/
theorem Cell.ofNumeric_cases (h : SpellsInt text.toList n) :
    Cell.ofNumeric text = .ofInt n ∨ (∃ f : Binary64, Cell.ofNumeric text = .number (.real f) ∧ f.IsNearest n)
      ∨ Cell.ofNumeric text = .null ∧ ((2 ^ 54 - 1) * 2 ^ 970 : ℚ) ≤ |(n : ℚ)| := by
  by_cases hfits : SpellsSigned text.toList n ∧ fitsInt64 n
  · exact .inl (Cell.ofNumeric_of_spellsSigned hfits.1 hfits.2)
  obtain ⟨negative, num, den, hden, hvalue, hnumeric⟩ := Cell.ofNumeric_of_spellsInt h hfits
  rw [hnumeric, Cell.ofReal]
  split
  · rename_i hfinite
    have hnearest := Binary64.isNearest_nearest hden hfinite
    rw [hvalue] at hnearest
    exact .inr (.inl ⟨_, rfl, hnearest⟩)
  · rename_i hinfinite
    refine .inr (.inr ⟨rfl, ?_⟩)
    rw [← hvalue, Binary64.abs_signed negative (by positivity)]
    exact Binary64.le_of_not_isFinite_nearest hden hinfinite

/--
Whole numbers keep their value on the way into storage exactly if they have 64 bits with a sign or are doubles, and
on the way out exactly if they are digits alone for such a number or are doubles. Every other one is rounded: it is
bound as the double nearest to it, and so it is read, unless it is larger than every double, where nothing is read.
-/
theorem Value.whole_numbers_kept_or_rounded :
    (∀ n : Int, (Number.int n).WellFormed →
      ((Value.ofInt n).bind.Denotes n ↔ fitsInt64 n ∨ IsExact n)
        ∧ ((Value.ofInt n).bind = .whole n ∨ ∃ f : Binary64, (Value.ofInt n).bind = .real f ∧ f.IsNearest n))
    ∧ ∀ (text : String) (n : Int), SpellsInt text.toList n →
      ((Cell.ofNumeric text).Denotes n ↔ SpellsSigned text.toList n ∧ fitsInt64 n ∨ IsExact n)
        ∧ (Cell.ofNumeric text = .ofInt n
          ∨ (∃ f : Binary64, Cell.ofNumeric text = .number (.real f) ∧ f.IsNearest n)
          ∨ Cell.ofNumeric text = .null ∧ ((2 ^ 54 - 1) * 2 ^ 970 : ℚ) ≤ |(n : ℚ)|) := by
  refine ⟨fun n hn => ⟨Value.denotes_bind_ofInt_iff, ?_⟩,
    fun text n h => ⟨Cell.denotes_ofNumeric_iff h, Cell.ofNumeric_cases h⟩⟩
  rw [Value.bind_ofInt]
  split
  · exact .inl rfl
  · exact .inr ⟨_, rfl, Binary64.isNearest_ofInt hn⟩

/-- A power of two above the whole numbers with a sign is bound as it is, and the number before the first such power
is read as it is. -/
theorem Value.whole_numbers_kept_or_rounded_limits :
    (Value.ofInt 9223372036854775808).bind.Denotes 9223372036854775808
      ∧ (Cell.ofNumeric "9223372036854775807").Denotes 9223372036854775807 := by
  have hpower : IsExact 9223372036854775808 := ⟨1, 63, by norm_num, by norm_num, by norm_num⟩
  have hspells : SpellsSigned "9223372036854775807".toList 9223372036854775807 :=
    readSigned?_eq_some_iff.mp (by decide +kernel)
  obtain ⟨hbind, hnumeric⟩ := Value.whole_numbers_kept_or_rounded
  exact ⟨(hbind 9223372036854775808 (.inr (by decide))).1.mpr (.inr hpower),
    (hnumeric _ _ hspells.spellsInt).1.mpr (.inl ⟨hspells, by decide⟩)⟩

/-- An odd number of more than fifty-three bits is no double. -/
theorem Binary64.not_isExact_of_odd (hodd : n.natAbs % 2 = 1) (hlarge : 2 ^ 53 ≤ n.natAbs) : ¬ IsExact n := by
  rintro ⟨m, k, hm, -, hn⟩
  cases k with
  | zero => omega
  | succ k =>
    rw [Nat.pow_succ, ← Nat.mul_assoc] at hn
    omega

/-- The largest whole number of 64 bits is not bound as itself, and the second one past those with a sign is not read
as itself. -/
theorem Value.not_every_whole_number_kept :
    (¬ ∀ n : Int, (Number.int n).WellFormed → (Value.ofInt n).bind.Denotes n)
      ∧ ¬ ∀ (text : String) (n : Int), SpellsInt text.toList n → (Cell.ofNumeric text).Denotes n := by
  constructor
  · intro h
    rcases Value.denotes_bind_ofInt_iff.mp (h 18446744073709551615 (.inr (by decide))) with hfits | hexact
    · exact absurd hfits (by decide)
    · exact Binary64.not_isExact_of_odd (by decide) (by decide) hexact
  · intro h
    have hspells : SpellsInt "9223372036854775809".toList 9223372036854775809 :=
      (readSigned?_eq_some_iff.mp (by decide +kernel)).spellsInt
    have hdenotes := h "9223372036854775809" 9223372036854775809 hspells
    rcases (Cell.denotes_ofNumeric_iff hspells).mp hdenotes with ⟨-, hfits⟩ | hexact
    · exact absurd hfits (by decide)
    · exact Binary64.not_isExact_of_odd (by decide) (by decide) hexact

end JobTrail
