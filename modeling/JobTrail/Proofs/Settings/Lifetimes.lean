import JobTrail.Proofs.Text.Integers
import JobTrail.Settings

/-!
# The grammar of lifetimes

A lifetime is a whole number with a unit behind it, or without one. The product is taken over the integers,
and a text counts if it is of this form and its product is above zero and has a place in 64 bits. Neither the
digits nor the product can be so large that a smaller number comes out.
-/

namespace JobTrail

variable {s : String} {cs number unit : List Char} {amount factor : Nat} {n : Int}

/-- The seconds of a unit. Without a unit, seconds are meant. -/
inductive UnitOf : List Char → Nat → Prop where
  | bare : UnitOf [] 1
  | seconds : UnitOf ['s'] 1
  | minutes : UnitOf ['m'] 60
  | hours : UnitOf ['h'] 3600
  | days : UnitOf ['d'] 86400

/-- Between blanks stands a number with a unit, and it makes so many seconds. -/
def SpellsLifetime (s : String) (n : Int) : Prop :=
  ∃ number unit amount factor, InBlanks (number ++ unit) s ∧ SpellsWhole number amount ∧ UnitOf unit factor
    ∧ n = amount * factor

theorem UnitOf.pos (h : UnitOf unit factor) : 0 < factor := by
  cases h <;> omega

theorem UnitOf.isBlank (h : UnitOf unit factor) : ∀ c ∈ unit, isBlank c = false := by
  intro c hc
  cases h with
  | bare => cases hc
  | seconds | minutes | hours | days =>
    rw [List.mem_singleton.mp hc]
    rfl

theorem isBlank_append (hnumber : SpellsWhole number amount) (hunit : UnitOf unit factor) :
    ∀ c ∈ number ++ unit, isBlank c = false :=
  List.forall_mem_append.mpr ⟨isBlank_of_spellsWhole hnumber, hunit.isBlank⟩

/-! ## Number and unit apart -/

theorem SpellsWhole.exists_concat (h : SpellsWhole number amount) :
    ∃ front c, number = front ++ [c] ∧ c.isDigit := by
  obtain ⟨digits, hdigits, hnumber⟩ := h
  have hconcat := List.dropLast_concat_getLast hdigits.ne_nil
  have hlast := hdigits.isDigit _ (List.getLast_mem hdigits.ne_nil)
  rcases hnumber with rfl | rfl
  · exact ⟨_, _, hconcat.symm, hlast⟩
  · exact ⟨'+' :: digits.dropLast, _, (congrArg ('+' :: ·) hconcat).symm, hlast⟩

theorem isAlpha_of_isDigit {c : Char} (h : c.isDigit) : c.isAlpha = false := by
  simp only [Char.isDigit, Char.isAlpha, Char.isUpper, Char.isLower, Bool.and_eq_true, decide_eq_true_eq,
    Bool.or_eq_false_iff, Bool.and_eq_false_iff, decide_eq_false_iff_not, ge_iff_le, UInt32.le_iff_toNat_le] at h ⊢
  have hnine : c.val.toNat ≤ 57 := h.2
  have hupper : 'A'.val.toNat = 65 := rfl
  have hlower : 'a'.val.toNat = 97 := rfl
  omega

/-- The last character of a number is no letter, so only the unit is split off. -/
theorem splitUnit_append (hnumber : SpellsWhole number amount) (hunit : UnitOf unit factor) :
    ∃ c, splitUnit (number ++ unit) = (number, c) ∧ unitSeconds? c = some (factor : Int) := by
  obtain ⟨front, d, rfl, hd⟩ := hnumber.exists_concat
  cases hunit with
  | bare => exact ⟨'s', by simp [splitUnit, isAlpha_of_isDigit hd], rfl⟩
  | seconds => exact ⟨'s', by simp [splitUnit], rfl⟩
  | minutes => exact ⟨'m', by simp [splitUnit], rfl⟩
  | hours => exact ⟨'h', by simp [splitUnit], rfl⟩
  | days => exact ⟨'d', by simp [splitUnit], rfl⟩

theorem exists_unitOf {c : Char} {seconds : Int} (h : unitSeconds? c = some seconds) :
    ∃ factor : Nat, UnitOf [c] factor ∧ seconds = factor := by
  rw [unitSeconds?.eq_def] at h
  split at h
  · exact ⟨1, .seconds, (Option.some.inj h).symm⟩
  · exact ⟨60, .minutes, (Option.some.inj h).symm⟩
  · exact ⟨3600, .hours, (Option.some.inj h).symm⟩
  · exact ⟨86400, .days, (Option.some.inj h).symm⟩
  · cases h

theorem exists_unit_of_splitUnit {seconds : Int} (h : unitSeconds? (splitUnit cs).2 = some seconds) :
    ∃ unit, ∃ factor : Nat, (splitUnit cs).1 ++ unit = cs ∧ UnitOf unit factor ∧ seconds = factor := by
  rw [splitUnit] at h ⊢
  split at h
  · rename_i c hlast
    by_cases halpha : c.isAlpha
    · simp only [if_pos halpha] at h ⊢
      obtain ⟨factor, hfactor, hseconds⟩ := exists_unitOf h
      exact ⟨[c], factor, List.dropLast_append_getLast? c hlast, hfactor, hseconds⟩
    · simp only [if_neg halpha] at h ⊢
      exact ⟨[], 1, List.append_nil cs, .bare, (Option.some.inj h).symm⟩
  · exact ⟨[], 1, List.append_nil cs, .bare, (Option.some.inj h).symm⟩

/-! ## What is accepted -/

theorem parseLifetime?_eq_some_iff :
    parseLifetime? s = some n ↔
      ∃ amount seconds, readSigned? (splitUnit (trimChars s.toList)).1 = some amount ∧ fitsInt64 amount
        ∧ unitSeconds? (splitUnit (trimChars s.toList)).2 = some seconds
        ∧ n = amount * seconds ∧ fitsInt64 n ∧ 0 < n := by
  simp only [parseLifetime?, readInt64?, Option.bind_eq_bind, Option.bind_eq_some_iff, Option.filter_eq_some_iff,
    decide_eq_true_eq, Option.ite_none_right_eq_some, Option.some.injEq]
  constructor
  · rintro ⟨amount, ⟨hread, hamount⟩, seconds, hunit, ⟨hfits, hpos⟩, rfl⟩
    exact ⟨amount, seconds, hread, hamount, hunit, rfl, hfits, hpos⟩
  · rintro ⟨amount, seconds, hread, hamount, hunit, rfl, hfits, hpos⟩
    exact ⟨amount, ⟨hread, hamount⟩, seconds, hunit, ⟨hfits, hpos⟩, rfl⟩

theorem SpellsLifetime.parse_eq_some_iff {m : Int} (h : SpellsLifetime s n) :
    parseLifetime? s = some m ↔ m = n ∧ 0 < n ∧ n ≤ 9223372036854775807 := by
  obtain ⟨number, unit, amount, factor, hs, hnumber, hunit, rfl⟩ := h
  obtain ⟨c, hsplit, hc⟩ := splitUnit_append hnumber hunit
  -- The product is not below the amount, so an amount without a place in 64 bits has no such product.
  have hlarge : (amount : Int) ≤ amount * factor := by
    exact_mod_cast Nat.le_mul_of_pos_right amount hunit.pos
  rw [parseLifetime?_eq_some_iff, (inBlanks_iff (isBlank_append hnumber hunit)).mp hs, hsplit]
  simp only [readSigned?_of_spellsWhole hnumber, hc, Option.some.injEq]
  constructor
  · rintro ⟨a, f, rfl, -, rfl, rfl, hfits, hpos⟩
    exact ⟨rfl, hpos, hfits.2⟩
  · rintro ⟨rfl, hpos, hmax⟩
    refine ⟨amount, factor, rfl, ?_, rfl, rfl, ?_, hpos⟩
    · constructor <;> omega
    · constructor <;> omega

theorem SpellsLifetime.nonneg (h : SpellsLifetime s n) : 0 ≤ n := by
  obtain ⟨number, unit, amount, factor, -, -, -, rfl⟩ := h
  positivity

theorem spellsLifetime_of_parse (h : parseLifetime? s = some n) : SpellsLifetime s n := by
  obtain ⟨a, f, ha, -, hf, rfl, -, hpos⟩ := parseLifetime?_eq_some_iff.mp h
  obtain ⟨unit, factor, hs, hunit, rfl⟩ := exists_unit_of_splitUnit hf
  have hfactor : (0 : Int) < factor := Int.natCast_pos.mpr hunit.pos
  obtain ⟨amount, rfl, hnumber⟩ := exists_spellsWhole_of_readSigned? ha (pos_of_mul_pos_left hpos hfactor.le)
  refine ⟨_, unit, amount, factor, ?_, hnumber, hunit, rfl⟩
  exact hs.symm ▸ inBlanks_trimChars s

theorem parseLifetime?_iff_spells :
    parseLifetime? s = some n ↔ SpellsLifetime s n ∧ 0 < n ∧ n ≤ 9223372036854775807 := by
  constructor
  · intro h
    have hn := spellsLifetime_of_parse h
    exact ⟨hn, (hn.parse_eq_some_iff.mp h).2⟩
  · rintro ⟨hn, hrange⟩
    exact hn.parse_eq_some_iff.mpr ⟨rfl, hrange⟩

/-- The characters that a lifetime is made of. -/
def IsLifetimeChar (c : Char) : Prop := c.isDigit ∨ c = '+' ∨ c ∈ ['s', 'm', 'h', 'd']

theorem SpellsLifetime.isLifetimeChar (h : SpellsLifetime s n) : ∀ c ∈ trimChars s.toList, IsLifetimeChar c := by
  obtain ⟨number, unit, amount, factor, hs, hnumber, hunit, rfl⟩ := h
  rw [(inBlanks_iff (isBlank_append hnumber hunit)).mp hs]
  refine List.forall_mem_append.mpr ⟨?_, ?_⟩
  · obtain ⟨digits, hdigits, rfl | rfl⟩ := hnumber
    · exact fun c hc => .inl (hdigits.isDigit c hc)
    · exact List.forall_mem_cons.mpr ⟨.inr (.inl rfl), fun c hc => .inl (hdigits.isDigit c hc)⟩
  · intro c hc
    cases hunit with
    | bare => cases hc
    | seconds | minutes | hours | days =>
      rw [List.mem_singleton.mp hc]
      simp [IsLifetimeChar]

/--
A lifetime is read exactly if it is spelled as one and its seconds are above zero and have a place in 64 bits.
What is spelled as a larger number is refused, and so is a text with any other character inside its blanks.
-/
theorem parseLifetime_iff_spelled :
    (∀ (s : String) (n : Int),
      parseLifetime? s = some n ↔ SpellsLifetime s n ∧ 0 < n ∧ n ≤ 9223372036854775807)
    ∧ (∀ s, parseLifetime? s = none ↔
        ∀ n, SpellsLifetime s n → n = 0 ∨ 9223372036854775807 < n)
    ∧ ∀ s : String, (∃ c ∈ trimChars s.toList, ¬ IsLifetimeChar c) → parseLifetime? s = none := by
  refine ⟨fun s n => parseLifetime?_iff_spells, fun s => ?_, fun s ⟨c, hc, hother⟩ => ?_⟩
  · rw [Option.eq_none_iff_forall_ne_some]
    constructor
    · intro h n hn
      have hrange : ¬ (0 < n ∧ n ≤ 9223372036854775807) :=
        fun hrange => h n (parseLifetime?_iff_spells.mpr ⟨hn, hrange⟩)
      have hnonneg := hn.nonneg
      omega
    · intro h n hparse
      obtain ⟨hn, hpos, hmax⟩ := parseLifetime?_iff_spells.mp hparse
      rcases h n hn with hzero | hlarge <;> omega
  · refine Option.eq_none_iff_forall_ne_some.mpr fun n hparse => hother ?_
    exact (spellsLifetime_of_parse hparse).isLifetimeChar c hc

end JobTrail
