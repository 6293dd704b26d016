import JobTrail.Value.Printer
import JobTrail.Value.Reader
import Mathlib

/-!
# Numbers read back

A number reads back if the scan takes its text for one numeral and the numeral denotes the number. A numeral
whose parts are what the grammar asks for is read off its text, so it is enough to give the parts. Whole
numbers of 64 bits read back: they are written without a zero in front, and none is written as `-0`.
-/

namespace JobTrail

/-! ## Decimal digits -/

theorem digitsValue_toDigits (n : Nat) : digitsValue 0 (Nat.toDigits 10 n) = n := by
  have hvalue := Nat.ofDigitChars_ten_toDigits (n := n)
  rw [Nat.ofDigitChars_eq_foldl] at hvalue
  exact hvalue

theorem isDigit_toDigits (n : Nat) : ∀ c ∈ Nat.toDigits 10 n, c.isDigit :=
  fun _ hc => Nat.isDigit_of_mem_toDigits (by omega) (by omega) hc

theorem head?_toDigits (n : Nat) (h : n ≠ 0) : (Nat.toDigits 10 n).head? ≠ some '0' := by
  induction n using Nat.strongRecOn with
  | ind n ih =>
    by_cases hsmall : n < 10
    · rw [Nat.toDigits_of_lt_base hsmall]
      have hdigit : ∀ n < 10, n ≠ 0 → n.digitChar ≠ '0' := by decide
      simpa using hdigit n hsmall h
    · rw [Nat.toDigits_of_base_le (by omega) (by omega), List.head?_append_of_ne_nil _ Nat.toDigits_ne_nil]
      exact ih (n / 10) (by omega) (by omega)

/-- There is no zero in front of other digits. -/
theorem toDigits_noLeadingZero (n : Nat) :
    ¬ (1 < (Nat.toDigits 10 n).length ∧ (Nat.toDigits 10 n).head? = some '0') := by
  rintro ⟨hlong, hzero⟩
  by_cases h : n = 0
  · rw [h, Nat.toDigits_zero] at hlong
    simp at hlong
  · exact head?_toDigits n h hzero

/-! ## Numerals -/

namespace Json

variable {digits rest : List Char}

theorem splitDigits_append (hdigits : ∀ c ∈ digits, c.isDigit) (hrest : ∀ c ∈ rest.head?, ¬ c.isDigit) :
    splitDigits (digits ++ rest) = (digits, rest) := by
  rw [splitDigits, List.takeWhile_append_of_pos hdigits, List.dropWhile_append_of_pos hdigits]
  cases rest with
  | nil => simp
  | cons c rest =>
    have hc : ¬ c.isDigit := hrest c rfl
    simp [hc]

/-- The exponent as it is written. -/
def exponentText : Option (Bool × List Char) → List Char
  | none => []
  | some (down, digits) => 'e' :: (if down then '-' else '+') :: digits

/-- The fraction as it is written, and what is behind it. -/
def fractionText (fraction : Option (List Char)) (rest : List Char) : List Char :=
  match fraction with
  | none => rest
  | some digits => '.' :: (digits ++ rest)

theorem readExponent?_text {exponent : Option (Bool × List Char)}
    (h : ∀ e ∈ exponent, e.2 ≠ [] ∧ ∀ c ∈ e.2, c.isDigit) :
    readExponent? (exponentText exponent) = some exponent := by
  cases exponent with
  | none => rfl
  | some e =>
    obtain ⟨down, digits⟩ := e
    obtain ⟨hne, hdigits⟩ := h _ rfl
    dsimp only at hne hdigits
    cases down <;> simpa [exponentText, readExponent?, hne] using hdigits

theorem exponentText_head? (exponent : Option (Bool × List Char)) :
    ∀ c ∈ (exponentText exponent).head?, ¬ c.isDigit ∧ c ≠ '.' := by
  cases exponent <;> simp [exponentText]

theorem splitFraction?_text {fraction : Option (List Char)}
    (h : ∀ digits ∈ fraction, digits ≠ [] ∧ ∀ c ∈ digits, c.isDigit)
    (hrest : ∀ c ∈ rest.head?, ¬ c.isDigit ∧ c ≠ '.') :
    splitFraction? (fractionText fraction rest) = some (fraction, rest) := by
  cases fraction with
  | none =>
    cases rest with
    | nil => rfl
    | cons c rest =>
      have hc : c ≠ '.' := (hrest c rfl).2
      simp [splitFraction?, fractionText, hc]
  | some digits =>
    obtain ⟨hne, hdigits⟩ := h digits rfl
    simp [fractionText, splitFraction?, splitDigits_append hdigits fun c hc => (hrest c hc).1, hne]

namespace Numeral

/-- The numeral as it is written. -/
def text (x : Numeral) : List Char :=
  (if x.negative then ['-'] else []) ++ (x.whole ++ fractionText x.fraction (exponentText x.exponent))

/-- What the grammar asks of the parts of a numeral. -/
structure Proper (x : Numeral) : Prop where
  whole : x.whole ≠ [] ∧ ∀ c ∈ x.whole, c.isDigit
  noLeadingZero : ¬ (1 < x.whole.length ∧ x.whole.head? = some '0')
  fraction : ∀ digits ∈ x.fraction, digits ≠ [] ∧ ∀ c ∈ digits, c.isDigit
  exponent : ∀ e ∈ x.exponent, e.2 ≠ [] ∧ ∀ c ∈ e.2, c.isDigit

variable {x : Numeral}

theorem splitMinus_text (h : x.Proper) :
    splitMinus x.text = (x.negative, x.whole ++ fractionText x.fraction (exponentText x.exponent)) := by
  obtain ⟨c, cs, hwhole⟩ := List.exists_cons_of_ne_nil h.whole.1
  have hdigit : c.isDigit := h.whole.2 c (by simp [hwhole])
  rw [text, hwhole]
  cases x.negative with
  | true => rfl
  | false =>
    unfold splitMinus
    split
    · rename_i heq
      obtain ⟨rfl, -⟩ := List.cons.inj heq
      exact absurd hdigit (by decide)
    · rfl

/-- A numeral is read off the way it is written. -/
theorem ofChars?_text (h : x.Proper) : ofChars? x.text = some x := by
  have hwhole : ¬ (x.whole.isEmpty ∨ (1 < x.whole.length ∧ x.whole.head? = some '0')) := by
    intro hor
    exact hor.elim (fun hempty => h.whole.1 (List.isEmpty_iff.mp hempty)) h.noLeadingZero
  have hexponent := exponentText_head? x.exponent
  have hdigits : splitDigits (x.whole ++ fractionText x.fraction (exponentText x.exponent))
      = (x.whole, fractionText x.fraction (exponentText x.exponent)) := by
    apply splitDigits_append h.whole.2
    cases x.fraction with
    | none => exact fun c hc => (hexponent c hc).1
    | some digits => simp [fractionText]
  simp only [ofChars?, splitMinus_text h, hdigits, if_neg hwhole, splitFraction?_text h.fraction hexponent,
    readExponent?_text h.exponent, Option.bind_eq_bind, Option.bind_some]

theorem proper_digits (negative : Bool) (hne : digits ≠ []) (hdigits : ∀ c ∈ digits, c.isDigit)
    (hzero : ¬ (1 < digits.length ∧ digits.head? = some '0')) : (Numeral.mk negative digits none none).Proper :=
  ⟨⟨hne, hdigits⟩, hzero, by simp, by simp⟩

theorem isNumeralChar_of_isDigit {c : Char} (h : c.isDigit) : isNumeralChar c := by
  simp [isNumeralChar, h]

/-- The scan takes the text of a numeral for one piece. -/
theorem isNumeralChar_text (h : x.Proper) : ∀ c ∈ x.text, isNumeralChar c := by
  obtain ⟨negative, whole, fraction, exponent⟩ := x
  obtain ⟨⟨-, hwhole⟩, -, hfraction, hexponent⟩ := h
  have hexponentText : ∀ c ∈ exponentText exponent, isNumeralChar c := by
    cases exponent with
    | none => simp [exponentText]
    | some e =>
      obtain ⟨down, digits⟩ := e
      have hdigits : ∀ c ∈ digits, isNumeralChar c := fun c hc => isNumeralChar_of_isDigit ((hexponent _ rfl).2 c hc)
      cases down <;> simpa [exponentText, isNumeralChar] using hdigits
  have hfractionText : ∀ c ∈ fractionText fraction (exponentText exponent), isNumeralChar c := by
    cases fraction with
    | none => exact hexponentText
    | some digits =>
      intro c hc
      rcases List.mem_cons.mp hc with rfl | hc
      · rfl
      rcases List.mem_append.mp hc with hc | hc
      · exact isNumeralChar_of_isDigit ((hfraction _ rfl).2 c hc)
      · exact hexponentText c hc
  intro c hc
  rcases List.mem_append.mp hc with hc | hc
  · cases negative with
    | true => rw [List.mem_singleton.mp hc]; rfl
    | false => cases hc
  rcases List.mem_append.mp hc with hc | hc
  · exact isNumeralChar_of_isDigit (hwhole c hc)
  · exact hfractionText c hc

/-- The text of a numeral starts with a digit or the minus sign. -/
theorem text_eq_cons (h : x.Proper) : ∃ c rest, x.text = c :: rest ∧ (c.isDigit ∨ c = '-') := by
  obtain ⟨c, cs, hwhole⟩ := List.exists_cons_of_ne_nil h.whole.1
  have hdigit : c.isDigit := h.whole.2 c (by simp [hwhole])
  rw [text, hwhole]
  cases x.negative with
  | true => exact ⟨'-', _, rfl, .inr rfl⟩
  | false => exact ⟨c, _, rfl, .inl hdigit⟩

end Numeral

theorem numeralValue?_reverse (cs : List Char) :
    numeralValue? cs.reverse = ((Numeral.ofChars? cs).bind Numeral.number?).map .number := by
  rw [numeralValue?, List.reverse_reverse]

end Json

/-! ## Reading back -/

namespace Number

/-- The scan takes the text of the number for one numeral, and the numeral denotes the number. -/
structure ReadsBack (n : Number) : Prop where
  starts : ∃ c rest, n.print.toList = c :: rest ∧ (c.isDigit ∨ c = '-')
  numeral : ∀ c ∈ n.print.toList, Json.isNumeralChar c
  denotes : Json.numeralValue? n.print.toList.reverse = some (.number n)

theorem readsBack_of_text {n : Number} {x : Json.Numeral} (hprint : n.print.toList = x.text) (h : x.Proper)
    (hnumber : x.number? = some n) : n.ReadsBack := by
  constructor
  · rw [hprint]
    exact Json.Numeral.text_eq_cons h
  · rw [hprint]
    exact Json.Numeral.isNumeralChar_text h
  · rw [hprint, Json.numeralValue?_reverse, Json.Numeral.ofChars?_text h, Option.bind_some, hnumber,
      Option.map_some]

/-- Whole numbers of 64 bits read back. -/
theorem readsBack_int {n : Int} (h : fitsInt64 n ∨ fitsNat64 n) : (int n).ReadsBack := by
  have hproper : ∀ negative m, (Json.Numeral.mk negative (Nat.toDigits 10 m) none none).Proper :=
    fun negative m => Json.Numeral.proper_digits negative Nat.toDigits_ne_nil (isDigit_toDigits m)
      (toDigits_noLeadingZero m)
  cases n with
  | ofNat n =>
    have hprint : (int n).print.toList = Nat.toDigits 10 n := Nat.toList_repr
    apply readsBack_of_text (x := ⟨false, Nat.toDigits 10 n, none, none⟩) (hprint.trans ?_) (hproper _ _)
    · simpa [Json.Numeral.number?, digitsValue_toDigits] using or_iff_not_imp_left.mp h
    · simp [Json.Numeral.text, Json.fractionText, Json.exponentText]
  | negSucc n =>
    have hprint : (int (.negSucc n)).print.toList = '-' :: Nat.toDigits 10 (n + 1) := by
      change ("-" ++ Nat.repr (n + 1)).toList = _
      rw [String.toList_append, Nat.toList_repr]
      rfl
    apply readsBack_of_text (x := ⟨true, Nat.toDigits 10 (n + 1), none, none⟩) (hprint.trans ?_) (hproper _ _)
    · simp only [Json.Numeral.number?, digitsValue_toDigits, if_true, Int.neg_ofNat_succ]
      simp [h]
    · simp [Json.Numeral.text, Json.fractionText, Json.exponentText]

end Number
end JobTrail
