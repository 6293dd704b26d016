import JobTrail.Proofs.Decimal.Shortest
import JobTrail.Proofs.Text.Splitting
import JobTrail.Proofs.Value.Numeral

/-!
# Doubles read back

A finite double is written with the digits of its shortest decimal, positionally or in scientific form. Either
way the numeral on the page has the value of that decimal: the zeros that are cut off at the end of the digits
or put in to reach the point are paid for by the exponent.
-/

namespace JobTrail

/-! ## Digits in a row -/

theorem digitsValue_append (start : Nat) (cs ds : List Char) :
    digitsValue start (cs ++ ds) = digitsValue (digitsValue start cs) ds :=
  List.foldl_append

theorem digitsValue_zeros (start k : Nat) : digitsValue start (List.replicate k '0') = start * 10 ^ k := by
  induction k generalizing start with
  | zero => simp [digitsValue]
  | succ k ih =>
    have hstep : digitsValue start (List.replicate (k + 1) '0') = digitsValue (10 * start) (List.replicate k '0') := rfl
    rw [hstep, ih]
    ring

theorem digitsValue_zeros_append (k : Nat) (ds : List Char) :
    digitsValue 0 (List.replicate k '0' ++ ds) = digitsValue 0 ds := by
  rw [digitsValue_append, digitsValue_zeros, Nat.zero_mul]

namespace Json.Numeral

/-- All digits of a numeral as one whole number. -/
def digits (x : Numeral) : Nat := digitsValue 0 (x.whole ++ x.fraction.getD [])

/-- The power of ten that the last digit counts. -/
def scale (x : Numeral) : Int := x.shift - (x.fraction.getD []).length

variable {x : Numeral}

/-- The numeral is one of a double, and the double is the one nearest to its value. -/
structure Denotes (x : Numeral) (f : Binary64) : Prop where
  proper : x.Proper
  shape : x.fraction ≠ none ∨ x.exponent ≠ none
  value : Binary64.ofDecimal x.negative x.digits x.scale = f

theorem Denotes.number? {f : Binary64} (h : x.Denotes f) (hfinite : f.IsFinite) : x.number? = some (.real f) := by
  have hreal : ¬ (x.fraction = none ∧ x.exponent.isNone) := by
    intro ⟨hfraction, hexponent⟩
    exact h.shape.elim (fun hne => hne hfraction) fun hne => hne (Option.isNone_iff_eq_none.mp hexponent)
  have hvalue := h.value
  rw [digits, scale, digitsValue_append] at hvalue
  unfold Numeral.number?
  dsimp only
  rw [if_neg fun hint => hreal ⟨hint.1, hint.2.1⟩, hvalue, if_pos hfinite]

end Json.Numeral

namespace Binary64

open Json (Numeral)

/-! ## The digits of a decimal -/

theorem ofDecimal_zero (negative : Bool) (scale : Int) : ofDecimal negative 0 scale = ofMagnitude negative 0 := by
  simp [ofDecimal]

/-- A zero more at the end, and the last digit counts less. -/
theorem ofDecimal_mul_pow (negative : Bool) {digits : Nat} (hdigits : digits ≠ 0) (k : Nat) (scale : Int) :
    ofDecimal negative (digits * 10 ^ k) (scale - k) = ofDecimal negative digits scale := by
  refine (ofDecimal_congr negative hdigits ?_).symm
  rw [zpow_sub₀ (by norm_num), zpow_natCast]
  push_cast
  field_simp

/-- The digits of a decimal without the zeros at their end. -/
theorem exists_significant (x : Decimal) :
    ∃ k, Nat.toDigits 10 x.digits = x.significant ++ List.replicate k '0' := by
  have hrepr : (Nat.repr x.digits).toList = Nat.toDigits 10 x.digits := Nat.toList_repr
  rw [Decimal.significant, hrepr]
  exact exists_trimmed (fun c hc => eq_of_beq hc) (Nat.toDigits 10 x.digits)

/-- What is known of the digits that are written when the first of them counts `10 ^ exponent`. -/
structure Written (f : Binary64) (digits : List Char) (exponent : Int) : Prop where
  ne_nil : digits ≠ []
  isDigit : ∀ c ∈ digits, c.isDigit
  head : digits.head? ≠ some '0'
  value_ne_zero : digitsValue 0 digits ≠ 0
  denotes : ofDecimal f.isNegative (digitsValue 0 digits) (exponent + 1 - digits.length) = f

variable {f : Binary64} {digits : List Char} {exponent : Int}

theorem shortest_digits_ne_zero (hfinite : f.IsFinite) (hnonzero : f.magnitudeBits ≠ 0) : f.shortest.digits ≠ 0 := by
  intro h
  have hzero := ofDecimal_shortest hfinite hnonzero
  rw [h, ofDecimal_zero] at hzero
  apply hnonzero
  rw [← hzero]
  cases f.isNegative <;> rfl

theorem written_shortest (hfinite : f.IsFinite) (hnonzero : f.magnitudeBits ≠ 0) :
    Written f f.shortest.significant (f.shortest.scale + ((Nat.repr f.shortest.digits).length - 1 : Nat)) := by
  have hdigits := shortest_digits_ne_zero hfinite hnonzero
  obtain ⟨k, hk⟩ := exists_significant f.shortest
  have hvalue := digitsValue_toDigits f.shortest.digits
  rw [hk, digitsValue_append, digitsValue_zeros] at hvalue
  have hne : digitsValue 0 f.shortest.significant ≠ 0 := by
    intro h
    rw [h, Nat.zero_mul] at hvalue
    exact hdigits hvalue.symm
  have hnil : f.shortest.significant ≠ [] := by
    intro h
    rw [h] at hne
    exact hne rfl
  constructor
  · exact hnil
  · exact fun c hc => isDigit_toDigits f.shortest.digits c (by rw [hk]; exact List.mem_append_left _ hc)
  · have hhead := head?_toDigits f.shortest.digits hdigits
    rwa [hk, List.head?_append_of_ne_nil _ hnil] at hhead
  · exact hne
  · have hlength : (Nat.repr f.shortest.digits).length = f.shortest.significant.length + k := by
      rw [← String.length_toList, Nat.toList_repr, hk, List.length_append, List.length_replicate]
    have hpos := List.length_pos_iff.mpr hnil
    have hdenotes := ofDecimal_shortest hfinite hnonzero
    rw [← hvalue] at hdenotes
    rw [← ofDecimal_mul_pow _ hne k, hlength]
    convert hdenotes using 2
    omega

/-! ## The two forms -/

/-- The numeral that stands on the page in positional form. -/
def positionalNumeral (negative : Bool) (digits : List Char) (exponent : Int) : Numeral :=
  if exponent < 0 then ⟨negative, ['0'], some (List.replicate (-exponent - 1).toNat '0' ++ digits), none⟩
  else
    let whole := exponent.toNat + 1
    if digits.length ≤ whole then
      ⟨negative, digits ++ List.replicate (whole - digits.length) '0', some ['0'], none⟩
    else ⟨negative, digits.take whole, some (digits.drop whole), none⟩

theorem text_positionalNumeral (negative : Bool) (digits : List Char) (exponent : Int) :
    (positionalNumeral negative digits exponent).text
      = (if negative then ['-'] else []) ++ positional digits exponent := by
  unfold positionalNumeral positional
  dsimp only
  split
  · simp [Numeral.text, Json.fractionText, Json.exponentText]
  split
  · rename_i h
    have htake : (digits ++ List.replicate (exponent.toNat + 1 - digits.length) '0').take (exponent.toNat + 1)
        = digits ++ List.replicate (exponent.toNat + 1 - digits.length) '0' :=
      List.take_of_length_le (by simp; omega)
    simp [Numeral.text, Json.fractionText, Json.exponentText, List.drop_eq_nil_of_le h, htake]
  · rename_i h
    have hnil : digits.drop (exponent.toNat + 1) ≠ [] := by simpa using Nat.lt_of_not_le h
    have hzero : exponent.toNat + 1 - digits.length = 0 := by omega
    simp [Numeral.text, Json.fractionText, Json.exponentText, hnil, hzero]

theorem isDigit_zeros (k : Nat) : ∀ c ∈ List.replicate k '0', c.isDigit := by
  intro c hc
  rw [List.eq_of_mem_replicate hc]
  rfl

/-- A numeral with a point and no exponent. -/
theorem denotes_pointed {whole fraction : List Char} (hwhole : whole ≠ []) (hfraction : fraction ≠ [])
    (hdigits : ∀ c ∈ whole ++ fraction, c.isDigit) (hzero : ¬ (1 < whole.length ∧ whole.head? = some '0'))
    (hvalue : ofDecimal f.isNegative (digitsValue 0 (whole ++ fraction)) (-fraction.length) = f) :
    (Numeral.mk f.isNegative whole (some fraction) none).Denotes f := by
  obtain ⟨hwholeDigits, hfractionDigits⟩ := List.forall_mem_append.mp hdigits
  constructor
  · constructor
    · exact ⟨hwhole, hwholeDigits⟩
    · exact hzero
    · intro ds hds
      cases hds
      exact ⟨hfraction, hfractionDigits⟩
    · intro e he
      cases he
  · exact .inl (Option.some_ne_none _)
  · rw [Numeral.scale, Numeral.shift, Int.zero_sub]
    exact hvalue

theorem denotes_positionalNumeral (h : Written f digits exponent) :
    (positionalNumeral f.isNegative digits exponent).Denotes f := by
  have hpos := List.length_pos_iff.mpr h.ne_nil
  unfold positionalNumeral
  dsimp only
  split
  -- below one: zeros up to the first digit
  · rename_i hnegative
    have hdigits : digitsValue 0 (['0'] ++ (List.replicate (-exponent - 1).toNat '0' ++ digits))
        = digitsValue 0 digits := digitsValue_zeros_append ((-exponent - 1).toNat + 1) digits
    apply denotes_pointed
    · simp
    · simp [h.ne_nil]
    · exact List.forall_mem_append.mpr ⟨isDigit_zeros 1, List.forall_mem_append.mpr ⟨isDigit_zeros _, h.isDigit⟩⟩
    · simp
    · rw [hdigits, List.length_append, List.length_replicate]
      convert h.denotes using 2
      omega
  split
  -- a whole number: zeros up to the point, and one behind it
  · rename_i hwhole hlong
    have hdigits : digitsValue 0 (digits ++ List.replicate (exponent.toNat + 1 - digits.length) '0' ++ ['0'])
        = digitsValue 0 digits * 10 ^ (exponent.toNat + 1 - digits.length + 1) := by
      rw [List.append_assoc, digitsValue_append, ← digitsValue_zeros, List.replicate_succ']
    apply denotes_pointed
    · simp [h.ne_nil]
    · simp
    · exact List.forall_mem_append.mpr
        ⟨List.forall_mem_append.mpr ⟨h.isDigit, isDigit_zeros _⟩, isDigit_zeros 1⟩
    · intro ⟨_, hzero⟩
      rw [List.head?_append_of_ne_nil _ h.ne_nil] at hzero
      exact h.head hzero
    · have hdenotes := h.denotes
      rw [← ofDecimal_mul_pow _ h.value_ne_zero (exponent.toNat + 1 - digits.length + 1)] at hdenotes
      rw [hdigits]
      convert hdenotes using 2
      rw [List.length_singleton]
      omega
  -- the point stands among the digits
  · rename_i hwhole hlong
    apply denotes_pointed
    · simp [h.ne_nil]
    · simpa using Nat.lt_of_not_le hlong
    · rw [List.take_append_drop]
      exact h.isDigit
    · intro ⟨_, hzero⟩
      rw [List.head?_take, if_neg (by omega)] at hzero
      exact h.head hzero
    · rw [List.take_append_drop, List.length_drop]
      convert h.denotes using 2
      omega

def scientificNumeral (negative : Bool) (digits : List Char) (exponent : Int) : Numeral :=
  ⟨negative, digits.take 1, if digits.length ≤ 1 then none else some (digits.drop 1),
    some (exponent < 0, Nat.toDigits 10 exponent.natAbs)⟩

theorem text_scientificNumeral (negative : Bool) (digits : List Char) (exponent : Int) :
    (scientificNumeral negative digits exponent).text
      = (if negative then ['-'] else []) ++ scientific digits exponent := by
  have hrepr : (Nat.repr exponent.natAbs).toList = Nat.toDigits 10 exponent.natAbs := Nat.toList_repr
  unfold scientificNumeral scientific
  rw [hrepr]
  match digits with
  | [] => simp [Numeral.text, Json.fractionText, Json.exponentText]
  | [_] => simp [Numeral.text, Json.fractionText, Json.exponentText]
  | _ :: _ :: _ => simp [Numeral.text, Json.fractionText, Json.exponentText]

theorem denotes_scientificNumeral (h : Written f digits exponent) :
    (scientificNumeral f.isNegative digits exponent).Denotes f := by
  have hpos := List.length_pos_iff.mpr h.ne_nil
  have hfraction : (if digits.length ≤ 1 then none else some (digits.drop 1)).getD [] = digits.drop 1 := by
    split
    · rename_i hshort
      exact (List.drop_eq_nil_of_le hshort).symm
    · rfl
  constructor
  · constructor
    · exact ⟨by simp [scientificNumeral, h.ne_nil], fun c hc => h.isDigit c (List.mem_of_mem_take hc)⟩
    · simp [scientificNumeral]
    · intro ds hds
      unfold scientificNumeral at hds
      dsimp only at hds
      split at hds
      · cases hds
      · rename_i hlong
        cases hds
        refine ⟨fun hnil => ?_, fun c hc => h.isDigit c (List.mem_of_mem_drop hc)⟩
        exact hlong (List.drop_eq_nil_iff.mp hnil)
    · intro e he
      cases he
      exact ⟨Nat.toDigits_ne_nil, isDigit_toDigits _⟩
  · exact .inr (Option.some_ne_none _)
  · have hshift : (scientificNumeral f.isNegative digits exponent).shift = exponent := by
      simp only [scientificNumeral, Numeral.shift, digitsValue_toDigits, decide_eq_true_eq]
      split <;> omega
    rw [Numeral.digits, Numeral.scale, hshift, scientificNumeral, hfraction, List.take_append_drop, List.length_drop]
    convert h.denotes using 2
    omega

/-- What stands on the page is a numeral that denotes the double. -/
theorem exists_numeral (hfinite : f.IsFinite) :
    ∃ x : Numeral, x.Denotes f ∧ x.text = (if f.isNegative then ['-'] else []) ++ f.printMagnitude := by
  by_cases hzero : f.magnitudeBits = 0
  · have hself := ofMagnitude_magnitudeBits f
    rw [hzero, ← ofDecimal_zero f.isNegative (-1)] at hself
    refine ⟨⟨f.isNegative, ['0'], some ['0'], none⟩, ?_, ?_⟩
    · exact denotes_pointed (by simp) (by simp) (isDigit_zeros 2) (by simp) hself
    · rw [printMagnitude, if_pos hzero]
      rfl
  have hwritten := written_shortest hfinite hzero
  rw [printMagnitude, if_neg hzero]
  dsimp only
  by_cases hmoderate : -5 ≤ f.shortest.scale + ((Nat.repr f.shortest.digits).length - 1 : Nat) ∧
      f.shortest.scale + ((Nat.repr f.shortest.digits).length - 1 : Nat) ≤ 15
  · rw [if_pos hmoderate]
    exact ⟨_, denotes_positionalNumeral hwritten, text_positionalNumeral ..⟩
  · rw [if_neg hmoderate]
    exact ⟨_, denotes_scientificNumeral hwritten, text_scientificNumeral ..⟩

end Binary64

/-! ## Numbers -/

namespace Number

theorem readsBack_real {f : Binary64} (hfinite : f.IsFinite) : (real f).ReadsBack := by
  have hprint : (real f).print.toList = (if f.isNegative then ['-'] else []) ++ f.printMagnitude := by
    rw [print, Binary64.print, String.toList_ofList]
    cases f.isNegative <;> rfl
  obtain ⟨x, hx, htext⟩ := Binary64.exists_numeral hfinite
  exact readsBack_of_text (hprint.trans htext.symm) hx.proper (hx.number? hfinite)

/-- Every number that a JSON text can hold reads back. -/
theorem readsBack {n : Number} (h : n.WellFormed) : n.ReadsBack := by
  cases n with
  | int n => exact readsBack_int h
  | real d => exact readsBack_real h

end Number
end JobTrail
