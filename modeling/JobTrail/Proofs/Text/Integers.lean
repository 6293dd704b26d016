import JobTrail.Text.Blank
import JobTrail.Text.Integer
import Mathlib

/-!
# Whole numbers between blanks

What a text spells once the blanks at its ends are gone. The grammar comes apart into the blanks, a sign and
the digits, and each reader accepts its part of the grammar and nothing else.
-/

namespace JobTrail

variable {c : Char} {cs left right body digits : List Char} {s : String} {n limit : Nat}

/-! ## Blanks at the ends -/

/-- The text is the body with nothing but blanks around it. -/
def InBlanks (body : List Char) (s : String) : Prop :=
  ∃ left right, (∀ c ∈ left, isBlank c) ∧ (∀ c ∈ right, isBlank c) ∧ s.toList = left ++ body ++ right

theorem isBlank_eq_false (hlow : 0x21 ≤ c.toNat) (hhigh : c.toNat ≤ 0x7E) : isBlank c = false := by
  simp only [isBlank, Bool.or_eq_false_iff, Bool.and_eq_false_iff, decide_eq_false_iff_not, beq_eq_false_iff_ne]
  omega

theorem dropWhile_isBlank_append (hleft : ∀ c ∈ left, isBlank c) (hcs : ∀ c ∈ cs.head?, isBlank c = false) :
    (left ++ cs).dropWhile isBlank = cs := by
  rw [List.dropWhile_append_of_pos hleft]
  cases cs with
  | nil => rfl
  | cons c rest => exact List.dropWhile_cons_of_neg (by simp [hcs c rfl])

theorem trimChars_append (hleft : ∀ c ∈ left, isBlank c) (hright : ∀ c ∈ right, isBlank c)
    (hbody : ∀ c ∈ body, isBlank c = false) : trimChars (left ++ body ++ right) = body := by
  have hback : ∀ c ∈ right.reverse, isBlank c := fun c hc => hright c (List.mem_reverse.mp hc)
  have hlast : ∀ c ∈ body.reverse.head?, isBlank c = false :=
    fun c hc => hbody c (List.mem_reverse.mp (List.mem_of_mem_head? hc))
  rw [trimChars, List.append_assoc, List.dropWhile_append_of_pos hleft]
  cases body with
  | nil =>
    rw [List.nil_append, ← List.append_nil right, dropWhile_isBlank_append hright (by simp)]
    rfl
  | cons c rest =>
    have hc : isBlank c = false := hbody c List.mem_cons_self
    rw [List.cons_append, List.dropWhile_cons_of_neg (by simp [hc]), ← List.cons_append, List.reverse_append,
      dropWhile_isBlank_append hback hlast, List.reverse_reverse]

theorem inBlanks_trimChars (s : String) : InBlanks (trimChars s.toList) s := by
  refine ⟨s.toList.takeWhile isBlank,
    ((s.toList.dropWhile isBlank).reverse.takeWhile isBlank).reverse, ?_, ?_, ?_⟩
  · exact fun c hc => List.mem_takeWhile_imp hc
  · exact fun c hc => List.mem_takeWhile_imp (List.mem_reverse.mp hc)
  · rw [trimChars, List.append_assoc, ← List.reverse_append, List.takeWhile_append_dropWhile,
      List.reverse_reverse, List.takeWhile_append_dropWhile]

/-- Trimming finds what stands between the blanks. -/
theorem inBlanks_iff (hbody : ∀ c ∈ body, isBlank c = false) : InBlanks body s ↔ trimChars s.toList = body := by
  constructor
  · rintro ⟨left, right, hleft, hright, hs⟩
    rw [hs, trimChars_append hleft hright hbody]
  · rintro rfl
    exact inBlanks_trimChars s

theorem inBlanks_toList_iff {t : String} (ht : ∀ c ∈ t.toList, isBlank c = false) :
    InBlanks t.toList s ↔ trimBlank s = t := by
  rw [inBlanks_iff ht, trimBlank, ← String.toList_inj, String.toList_ofList]

/-! ## Digits and a sign -/

/-- Decimal digits, at least one, and the number they denote. -/
structure DigitsDenote (digits : List Char) (n : Nat) : Prop where
  ne_nil : digits ≠ []
  isDigit : ∀ c ∈ digits, c.isDigit
  value : Nat.ofDigitChars 10 digits 0 = n

/-- Digits behind a plus sign, or without one. -/
def SpellsWhole (cs : List Char) (n : Nat) : Prop := ∃ digits, DigitsDenote digits n ∧ (cs = digits ∨ cs = '+' :: digits)

theorem digitsValue_eq (digits : List Char) : digitsValue 0 digits = Nat.ofDigitChars 10 digits 0 := by
  rw [Nat.ofDigitChars_eq_foldl]
  rfl

theorem readDigits?_eq_some_iff : readDigits? digits = some n ↔ DigitsDenote digits n := by
  rw [readDigits?]
  split
  · rename_i h
    rw [Option.some.injEq, digitsValue_eq]
    exact ⟨fun hn => ⟨by simpa using h.1, by simpa using h.2, hn⟩, fun hd => hd.value⟩
  · rename_i h
    constructor
    · intro hn
      cases hn
    · intro hd
      exact absurd ⟨by simpa using hd.ne_nil, by simpa using hd.isDigit⟩ h

theorem DigitsDenote.head?_ne (h : DigitsDenote digits n) (hc : c.isDigit = false) : digits.head? ≠ some c := by
  intro hhead
  have hdigit := h.isDigit c (List.mem_of_mem_head? hhead)
  rw [hc] at hdigit
  cases hdigit

theorem isBlank_of_spellsWhole (h : SpellsWhole cs n) : ∀ c ∈ cs, isBlank c = false := by
  have hgraphic : ∀ digits, DigitsDenote digits n → ∀ c ∈ digits, isBlank c = false := by
    intro digits hd c hc
    have hdigit := hd.isDigit c hc
    simp only [Char.isDigit, Bool.and_eq_true, decide_eq_true_eq, ge_iff_le, UInt32.le_iff_toNat_le] at hdigit
    exact isBlank_eq_false (le_trans (by decide) hdigit.1) (le_trans hdigit.2 (by decide))
  obtain ⟨digits, hdigits, rfl | rfl⟩ := h
  · exact hgraphic cs hdigits
  · exact List.forall_mem_cons.mpr ⟨by decide, hgraphic digits hdigits⟩

/-- Digits behind a sign of either kind, or without one. -/
inductive SpellsSigned : List Char → Int → Prop
  | unsigned {ds : List Char} {k : Nat} : DigitsDenote ds k → SpellsSigned ds k
  | plus {ds : List Char} {k : Nat} : DigitsDenote ds k → SpellsSigned ('+' :: ds) k
  | minus {ds : List Char} {k : Nat} : DigitsDenote ds k → SpellsSigned ('-' :: ds) (-k)

/-! ## Readers -/

theorem readUpTo?_eq_some_iff : readUpTo? limit cs = some n ↔ SpellsWhole cs n ∧ n ≤ limit := by
  rw [readUpTo?.eq_def, Option.filter_eq_some_iff, decide_eq_true_eq, and_congr_left_iff]
  intro _
  split
  · rename_i digits
    rw [readDigits?_eq_some_iff]
    constructor
    · intro hd
      exact ⟨digits, hd, .inr rfl⟩
    · rintro ⟨ds, hd, hcs | hcs⟩
      · exact absurd (congrArg List.head? hcs.symm) (hd.head?_ne (by decide))
      · rw [(List.cons.inj hcs).2]
        exact hd
  · rename_i hplus
    rw [readDigits?_eq_some_iff]
    constructor
    · intro hd
      exact ⟨cs, hd, .inl rfl⟩
    · rintro ⟨ds, hd, rfl | rfl⟩
      · exact hd
      · exact absurd rfl (hplus ds)

theorem readSigned?_minus (digits : List Char) :
    readSigned? ('-' :: digits) = (readDigits? digits).map fun n : Nat => -(n : Int) := by
  rw [readSigned?]
  cases readDigits? digits <;> rfl

theorem readSigned?_plus (digits : List Char) :
    readSigned? ('+' :: digits) = (readDigits? digits).map fun n : Nat => (n : Int) := by
  rw [readSigned?]
  cases readDigits? digits <;> rfl

theorem readSigned?_unsigned (hminus : cs.head? ≠ some '-') (hplus : cs.head? ≠ some '+') :
    readSigned? cs = (readDigits? cs).map fun n : Nat => (n : Int) := by
  rw [readSigned?.eq_def]
  split
  · exact absurd rfl hminus
  · exact absurd rfl hplus
  · cases readDigits? cs <;> rfl

theorem readSigned?_eq_some_iff {a : Int} : readSigned? cs = some a ↔ SpellsSigned cs a := by
  constructor
  · intro h
    by_cases hminus : cs.head? = some '-'
    · obtain ⟨digits, rfl⟩ := List.head?_eq_some_iff.mp hminus
      rw [readSigned?_minus] at h
      obtain ⟨m, hm, rfl⟩ := Option.map_eq_some_iff.mp h
      exact .minus (readDigits?_eq_some_iff.mp hm)
    by_cases hplus : cs.head? = some '+'
    · obtain ⟨digits, rfl⟩ := List.head?_eq_some_iff.mp hplus
      rw [readSigned?_plus] at h
      obtain ⟨m, hm, rfl⟩ := Option.map_eq_some_iff.mp h
      exact .plus (readDigits?_eq_some_iff.mp hm)
    · rw [readSigned?_unsigned hminus hplus] at h
      obtain ⟨m, hm, rfl⟩ := Option.map_eq_some_iff.mp h
      exact .unsigned (readDigits?_eq_some_iff.mp hm)
  · rintro (hdigits | hdigits | hdigits)
    · rw [readSigned?_unsigned (hdigits.head?_ne rfl) (hdigits.head?_ne rfl),
        readDigits?_eq_some_iff.mpr hdigits, Option.map_some]
    · rw [readSigned?_plus, readDigits?_eq_some_iff.mpr hdigits, Option.map_some]
    · rw [readSigned?_minus, readDigits?_eq_some_iff.mpr hdigits, Option.map_some]

theorem readSigned?_of_spellsWhole (h : SpellsWhole cs n) : readSigned? cs = some (n : Int) := by
  obtain ⟨digits, hdigits, rfl | rfl⟩ := h
  · exact readSigned?_eq_some_iff.mpr (.unsigned hdigits)
  · exact readSigned?_eq_some_iff.mpr (.plus hdigits)

/-- A number above zero is read off digits without a minus sign. -/
theorem exists_spellsWhole_of_readSigned? {a : Int} (h : readSigned? cs = some a) (hpos : 0 < a) :
    ∃ n : Nat, a = n ∧ SpellsWhole cs n := by
  cases readSigned?_eq_some_iff.mp h with
  | unsigned hdigits => exact ⟨_, rfl, _, hdigits, .inl rfl⟩
  | plus hdigits => exact ⟨_, rfl, _, hdigits, .inr rfl⟩
  | minus hdigits => omega

end JobTrail
