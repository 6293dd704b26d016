import JobTrail.Decimal.Literal
import JobTrail.Proofs.Decimal.Exact
import JobTrail.Proofs.Text.Integers
import JobTrail.Proofs.Text.Splitting

/-!
# Decimals as they are spelled

The grammar of a decimal that is a number: a sign, digits with a point anywhere among them, and an exponent. Each
reader takes its part of the grammar for what the part denotes.
-/

namespace JobTrail

variable {c : Char} {cs : List Char} {negative : Bool} {digits places n : Nat} {scale : Int}

/-! ## The grammar -/

/-- Digits, with a point anywhere among them or without one, and how many stand behind the point. -/
structure SpellsMantissa (cs : List Char) (digits places : Nat) : Prop where
  parts : ∃ whole fraction, DigitsDenote (whole ++ fraction) digits ∧ fraction.length = places
    ∧ (cs = whole ++ '.' :: fraction ∨ fraction = [] ∧ cs = whole)

/-- Nothing, or a mark in either case and a whole number. -/
inductive SpellsExponent : List Char → Int → Prop
  | none : SpellsExponent [] 0
  | lower {cs : List Char} {shift : Int} : SpellsSigned cs shift → SpellsExponent ('e' :: cs) shift
  | upper {cs : List Char} {shift : Int} : SpellsSigned cs shift → SpellsExponent ('E' :: cs) shift

/-- Text that denotes the digits, moved by a power of ten. -/
def SpellsMagnitude (cs : List Char) (digits : Nat) (scale : Int) : Prop :=
  ∃ mantissa exponent places shift, cs = mantissa ++ exponent ∧ SpellsMantissa mantissa digits places
    ∧ SpellsExponent exponent shift ∧ scale = shift - places

inductive SpellsDecimal : List Char → Bool → Nat → Int → Prop
  | unsigned {cs : List Char} {digits : Nat} {scale : Int} :
      SpellsMagnitude cs digits scale → SpellsDecimal cs false digits scale
  | plus {cs : List Char} {digits : Nat} {scale : Int} :
      SpellsMagnitude cs digits scale → SpellsDecimal ('+' :: cs) false digits scale
  | minus {cs : List Char} {digits : Nat} {scale : Int} :
      SpellsMagnitude cs digits scale → SpellsDecimal ('-' :: cs) true digits scale

/-! ## Which characters stand where -/

/-- What a mantissa is made of. -/
def isMantissaChar (c : Char) : Prop := c.isDigit ∨ c = '.'

theorem ne_of_isDigit {d : Char} (hc : c.isDigit) (hd : d.isDigit = false) : c ≠ d := by
  rintro rfl
  rw [hc] at hd
  cases hd

theorem isMantissaChar_ne {d : Char} (hc : isMantissaChar c) (hd : d.isDigit = false) (hpoint : d ≠ '.') : c ≠ d :=
  hc.elim (fun hdigit => ne_of_isDigit hdigit hd) (fun h => h ▸ hpoint.symm)

theorem SpellsMantissa.isMantissaChar (h : SpellsMantissa cs digits places) : ∀ c ∈ cs, isMantissaChar c := by
  obtain ⟨whole, fraction, hdigits, -, hcs⟩ := h.parts
  have hwhole : ∀ c ∈ whole, JobTrail.isMantissaChar c :=
    fun c hc => .inl (hdigits.isDigit c (List.mem_append_left _ hc))
  have hfraction : ∀ c ∈ fraction, JobTrail.isMantissaChar c :=
    fun c hc => .inl (hdigits.isDigit c (List.mem_append_right _ hc))
  rcases hcs with rfl | ⟨-, rfl⟩
  · exact List.forall_mem_append.mpr ⟨hwhole, List.forall_mem_cons.mpr ⟨.inr rfl, hfraction⟩⟩
  · exact hwhole

theorem SpellsMantissa.ne_nil (h : SpellsMantissa cs digits places) : cs ≠ [] := by
  obtain ⟨whole, fraction, hdigits, -, rfl | ⟨rfl, rfl⟩⟩ := h.parts
  · exact List.append_ne_nil_of_right_ne_nil _ (List.cons_ne_nil _ _)
  · have hne := hdigits.ne_nil
    rwa [List.append_nil] at hne

theorem SpellsMagnitude.exists_head (h : SpellsMagnitude cs digits scale) :
    ∃ c rest, cs = c :: rest ∧ isMantissaChar c := by
  obtain ⟨mantissa, exponent, places, shift, rfl, hmantissa, -, -⟩ := h
  obtain ⟨c, rest, rfl⟩ := List.exists_cons_of_ne_nil hmantissa.ne_nil
  exact ⟨c, rest ++ exponent, rfl, hmantissa.isMantissaChar c List.mem_cons_self⟩

/-! ## Reading -/

namespace Binary64

theorem readMantissa?_of_spells (h : SpellsMantissa cs digits places) : readMantissa? cs = some (digits, places) := by
  obtain ⟨whole, fraction, hdigits, hlength, hcs⟩ := h.parts
  have hwhole : '.' ∉ whole := fun hc => absurd (hdigits.isDigit '.' (List.mem_append_left _ hc)) (by decide)
  have hread := readDigits?_eq_some_iff.mpr hdigits
  rcases hcs with rfl | ⟨rfl, rfl⟩
  · obtain ⟨htake, hdrop⟩ := takeWhile_ne_append hwhole fraction
    simp only [readMantissa?, htake, hdrop, List.drop_one, List.tail_cons, hread, Option.map_some, hlength]
  · obtain ⟨htake, hdrop⟩ := takeWhile_all (ne_of_notMem hwhole)
    simp only [readMantissa?, htake, hdrop, List.drop_nil, hread, Option.map_some, hlength]

theorem toLower_of_isMantissaChar (hc : isMantissaChar c) : c.toLower = c := by
  rcases hc with hdigit | rfl
  · rw [Char.toLower, dif_neg]
    intro hupper
    simp only [Char.isDigit, Bool.and_eq_true, decide_eq_true_eq, UInt32.le_iff_toNat_le, ge_iff_le] at hdigit hupper
    exact absurd (hupper.1.trans hdigit.2) (by decide)
  · rfl

/-- The words for what is not finite begin with letters. -/
theorem map_toLower_ne_word (h : SpellsMagnitude cs digits scale) {word : String}
    (hletter : ∀ c ∈ word.toList.head?, ¬ isMantissaChar c) : String.ofList (cs.map Char.toLower) ≠ word := by
  rintro rfl
  obtain ⟨c, rest, rfl, hc⟩ := h.exists_head
  refine hletter c ?_ hc
  rw [String.toList_ofList, List.map_cons, toLower_of_isMantissaChar hc]
  rfl

theorem readMagnitude?_of_spells (h : SpellsMagnitude cs digits scale) :
    readMagnitude? negative cs = some (ofDecimal negative digits scale) := by
  obtain ⟨mantissa, exponent, places, shift, rfl, hmantissa, hexponent, rfl⟩ := id h
  have hletter : ∀ c : Char, c.isDigit = false ∧ c ≠ '.' → ¬ isMantissaChar c :=
    fun c hc hchar => isMantissaChar_ne hchar hc.1 hc.2 rfl
  rw [readMagnitude?]
  split
  · exact absurd ‹_› (map_toLower_ne_word h (by simpa using hletter 'i' (by decide)))
  · exact absurd ‹_› (map_toLower_ne_word h (by simpa using hletter 'i' (by decide)))
  · exact absurd ‹_› (map_toLower_ne_word h (by simpa using hletter 'n' (by decide)))
  · have hmarks : ∀ c ∈ mantissa, !(c == 'e' || c == 'E') := by
      intro c hc
      have hchar := hmantissa.isMantissaChar c hc
      simp [isMantissaChar_ne hchar (d := 'e') rfl (by decide), isMantissaChar_ne hchar (d := 'E') rfl (by decide)]
    have hread := readMantissa?_of_spells hmantissa
    cases hexponent with
    | none =>
      rw [List.append_nil]
      obtain ⟨htake, hdrop⟩ := takeWhile_all hmarks
      simp only [htake, hdrop, hread, Option.bind_eq_bind, Option.bind_some]
    | @lower digits' _ hshift =>
      obtain ⟨htake, hdrop⟩ := takeWhile_append_cons hmarks (rfl : (!('e' == 'e' || 'e' == 'E')) = false) digits'
      simp only [htake, hdrop, hread, readSigned?_eq_some_iff.mpr hshift, Option.bind_eq_bind, Option.bind_some]
    | @upper digits' _ hshift =>
      obtain ⟨htake, hdrop⟩ := takeWhile_append_cons hmarks (rfl : (!('E' == 'e' || 'E' == 'E')) = false) digits'
      simp only [htake, hdrop, hread, readSigned?_eq_some_iff.mpr hshift, Option.bind_eq_bind, Option.bind_some]

theorem read?_of_spells (h : SpellsDecimal cs negative digits scale) :
    read? cs = some (ofDecimal negative digits scale) := by
  cases h with
  | plus h => exact readMagnitude?_of_spells h
  | minus h => exact readMagnitude?_of_spells h
  | unsigned h =>
    obtain ⟨c, rest, rfl, hc⟩ := h.exists_head
    rw [read?.eq_def]
    split
    · rename_i heq
      exact absurd (List.cons.inj heq).1 (isMantissaChar_ne hc rfl (by decide))
    · rename_i heq
      exact absurd (List.cons.inj heq).1 (isMantissaChar_ne hc rfl (by decide))
    · exact readMagnitude?_of_spells h

end Binary64

/-! ## Whole numbers among the decimals -/

/-- Text of a decimal whose value is a whole number. -/
def SpellsInt (cs : List Char) (n : Int) : Prop :=
  ∃ negative digits scale, SpellsDecimal cs negative digits scale
    ∧ Binary64.signed negative (digits * 10 ^ scale) = n

/-- Digits alone are a mantissa without a point and without an exponent. -/
theorem SpellsMagnitude.of_digits (h : SpellsMagnitude cs digits scale) (hdigits : DigitsDenote cs n) :
    digits = n ∧ scale = 0 := by
  obtain ⟨mantissa, exponent, places, shift, rfl, hmantissa, hexponent, rfl⟩ := h
  have hno : ∀ c ∈ mantissa ++ exponent, ∀ d : Char, d.isDigit = false → c ≠ d :=
    fun c hc d => ne_of_isDigit (hdigits.isDigit c hc)
  cases hexponent with
  | lower => exact absurd rfl (hno 'e' (by simp) 'e' rfl)
  | upper => exact absurd rfl (hno 'E' (by simp) 'E' rfl)
  | none =>
    obtain ⟨whole, fraction, hvalue, rfl, rfl | ⟨rfl, rfl⟩⟩ := hmantissa.parts
    · exact absurd rfl (hno '.' (by simp) '.' rfl)
    · exact ⟨hvalue.value.symm.trans hdigits.value, rfl⟩

theorem SpellsDecimal.of_spellsSigned {a : Int} (h : SpellsDecimal cs negative digits scale) (ha : SpellsSigned cs a) :
    Binary64.signed negative (digits * 10 ^ scale) = a := by
  have hvalue : ∀ {ds k}, SpellsMagnitude ds digits scale → DigitsDenote ds k → (digits * 10 ^ scale : ℚ) = k := by
    intro ds k hm hd
    obtain ⟨rfl, rfl⟩ := hm.of_digits hd
    rw [zpow_zero, mul_one]
  have hsign : ∀ {d ds}, SpellsMagnitude (d :: ds) digits scale → d ≠ '+' ∧ d ≠ '-' := by
    intro d ds hm
    obtain ⟨c, rest, hcs, hc⟩ := hm.exists_head
    rw [(List.cons.inj hcs).1]
    exact ⟨isMantissaChar_ne hc rfl (by decide), isMantissaChar_ne hc rfl (by decide)⟩
  cases ha with
  | unsigned hd =>
    cases h with
    | unsigned hm => exact (hvalue hm hd).trans (Int.cast_natCast _).symm
    | plus => exact absurd rfl (hd.head?_ne rfl)
    | minus => exact absurd rfl (hd.head?_ne rfl)
  | plus hd =>
    cases h with
    | unsigned hm => exact absurd rfl (hsign hm).1
    | plus hm => exact (hvalue hm hd).trans (Int.cast_natCast _).symm
  | minus hd =>
    cases h with
    | unsigned hm => exact absurd rfl (hsign hm).2
    | minus hm =>
      rw [Binary64.signed, if_pos rfl, hvalue hm hd, Int.cast_neg, Int.cast_natCast]

/-- A text spells no more than one whole number with its digits alone. -/
theorem SpellsInt.eq_of_spellsSigned {a n : Int} (h : SpellsInt cs n) (ha : SpellsSigned cs a) : a = n := by
  obtain ⟨negative, digits, scale, hdecimal, hvalue⟩ := h
  exact_mod_cast (hdecimal.of_spellsSigned ha).symm.trans hvalue

/-- Digits with a sign are a decimal. -/
theorem SpellsSigned.spellsInt {a : Int} (h : SpellsSigned cs a) : SpellsInt cs a := by
  have hmagnitude : ∀ {ds k}, DigitsDenote ds k → SpellsMagnitude ds k 0 := by
    intro ds k hd
    refine ⟨ds, [], 0, 0, (List.append_nil ds).symm, ⟨ds, [], ?_, rfl, .inr ⟨rfl, rfl⟩⟩, .none, by simp⟩
    rwa [List.append_nil]
  cases h with
  | unsigned hd => exact ⟨false, _, 0, .unsigned (hmagnitude hd), by simp [Binary64.signed]⟩
  | plus hd => exact ⟨false, _, 0, .plus (hmagnitude hd), by simp [Binary64.signed]⟩
  | minus hd => exact ⟨true, _, 0, .minus (hmagnitude hd), by simp [Binary64.signed]⟩

end JobTrail
