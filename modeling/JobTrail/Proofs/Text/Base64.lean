import JobTrail.Text.Base64
import Mathlib

/-!
# Base64 read back

Writing cuts the bytes into values below 64, one for each character, and reading joins them again. Over an
alphabet of 64 distinct characters the value of each character is found again, so reading undoes writing.
-/

namespace JobTrail.Base64

variable {code : Base64}

/-- Every value below 64 has a character of its own. -/
structure Proper (code : Base64) : Prop where
  length : code.alphabet.length = 64
  distinct : code.alphabet.Nodup

theorem proper_standard : standard.Proper := ⟨by decide, by decide⟩

theorem proper_url : url.Proper := ⟨by decide, by decide⟩

theorem Proper.value?_digit (h : code.Proper) {n : Nat} (hn : n < 64) : code.value? (code.digit n) = some n := by
  have hlength : n < code.alphabet.length := by
    rw [h.length]
    exact hn
  rw [digit, List.getD_eq_getElem _ _ hlength, value?, List.findIdx?_eq_some_iff_getElem]
  refine ⟨hlength, by simp, ?_⟩
  intro j hj
  have hne : code.alphabet[j] ≠ code.alphabet[n] := by
    intro he
    exact hj.ne ((List.Nodup.getElem_inj_iff h.distinct).mp he)
  simpa using hne

theorem Proper.digit_mem (h : code.Proper) {n : Nat} (hn : n < 64) : code.digit n ∈ code.alphabet := by
  have hlength : n < code.alphabet.length := by
    rw [h.length]
    exact hn
  rw [digit, List.getD_eq_getElem _ _ hlength]
  exact List.getElem_mem hlength

theorem Proper.mapM_value?_digits (h : code.Proper) {ns : List Nat} (hns : ∀ n ∈ ns, n < 64) :
    (ns.map code.digit).mapM code.value? = some ns := by
  induction ns with
  | nil => rfl
  | cons n rest ih =>
    obtain ⟨hn, hrest⟩ := List.forall_mem_cons.mp hns
    rw [List.map_cons, List.mapM_cons, h.value?_digit hn, ih hrest]
    rfl

/-- The values that the characters of a text stand for. -/
def values : List UInt8 → List Nat
  | [] => []
  | [a] => [a.toNat / 4, a.toNat % 4 * 16]
  | [a, b] =>
    let n := 256 * a.toNat + b.toNat
    [n / 1024, n / 16 % 64, n % 16 * 4]
  | a :: b :: c :: rest =>
    let n := 65536 * a.toNat + 256 * b.toNat + c.toNat
    n / 262144 :: n / 4096 % 64 :: n / 64 % 64 :: n % 64 :: values rest

theorem encodeBytes_eq_map (code : Base64) (bytes : List UInt8) :
    code.encodeBytes bytes = (values bytes).map code.digit := by
  fun_induction values bytes with
  | case1 => rfl
  | case2 a => rfl
  | case3 a b n => rfl
  | case4 a b c rest n ih => simp [encodeBytes, ih, n]

theorem values_lt (bytes : List UInt8) : ∀ n ∈ values bytes, n < 64 := by
  fun_induction values bytes with
  | case1 => simp
  | case2 a =>
    have ha := a.toNat_lt
    simp only [List.forall_mem_cons]
    refine ⟨by omega, by omega, by simp⟩
  | case3 a b n =>
    have ha := a.toNat_lt
    have hb := b.toNat_lt
    simp only [List.forall_mem_cons]
    refine ⟨by omega, by omega, by omega, by simp⟩
  | case4 a b c rest n ih =>
    have ha := a.toNat_lt
    have hb := b.toNat_lt
    have hc := c.toNat_lt
    simp only [List.forall_mem_cons]
    exact ⟨by omega, by omega, by omega, by omega, ih⟩

theorem ofNat_eq {b : UInt8} {n : Nat} (h : n = b.toNat) : UInt8.ofNat n = b := by
  rw [h, UInt8.ofNat_toNat]

theorem joinValues_values (bytes : List UInt8) : joinValues (values bytes) = some bytes := by
  fun_induction values bytes with
  | case1 => rfl
  | case2 a =>
    have ha := a.toNat_lt
    rw [joinValues, if_pos (by omega), ofNat_eq (b := a) (by omega)]
  | case3 a b n =>
    have ha := a.toNat_lt
    have hb := b.toNat_lt
    rw [joinValues, if_pos (by omega), ofNat_eq (b := a) (by omega), ofNat_eq (b := b) (by omega)]
  | case4 a b c rest n ih =>
    have ha := a.toNat_lt
    have hb := b.toNat_lt
    have hc := c.toNat_lt
    rw [joinValues, ih, Option.map_some, ofNat_eq (b := a) (by omega), ofNat_eq (b := b) (by omega),
      ofNat_eq (b := c) (by omega)]

theorem Proper.decode?_encode (h : code.Proper) (bytes : List UInt8) :
    code.decode? (code.encode bytes) = some bytes := by
  rw [decode?, encode, String.toList_ofList, encodeBytes_eq_map, h.mapM_value?_digits (values_lt bytes),
    Option.bind_some, joinValues_values]

/-- Nothing is written but characters of the alphabet. -/
theorem Proper.mem_alphabet (h : code.Proper) {bytes : List UInt8} {c : Char}
    (hc : c ∈ (code.encode bytes).toList) : c ∈ code.alphabet := by
  rw [encode, String.toList_ofList, encodeBytes_eq_map, List.mem_map] at hc
  obtain ⟨n, hn, rfl⟩ := hc
  exact h.digit_mem (values_lt bytes n hn)

theorem mem_of_mapM_value? {cs : List Char} {ns : List Nat} (h : cs.mapM code.value? = some ns) :
    ∀ c ∈ cs, c ∈ code.alphabet := by
  induction cs generalizing ns with
  | nil => simp
  | cons c rest ih =>
    rw [List.mapM_cons] at h
    obtain ⟨n, hn, hrest⟩ := Option.bind_eq_some_iff.mp h
    obtain ⟨ms, hms, -⟩ := Option.bind_eq_some_iff.mp hrest
    obtain ⟨hlt, hfound, -⟩ := List.findIdx?_eq_some_iff_getElem.mp hn
    refine List.forall_mem_cons.mpr ⟨?_, ih hms⟩
    rw [← eq_of_beq hfound]
    exact List.getElem_mem hlt

/-- Nothing is read but characters of the alphabet. -/
theorem mem_alphabet_of_decode? {s : String} {bytes : List UInt8} (h : code.decode? s = some bytes) :
    ∀ c ∈ s.toList, c ∈ code.alphabet := by
  obtain ⟨ns, hns, -⟩ := Option.bind_eq_some_iff.mp h
  exact mem_of_mapM_value? hns

end JobTrail.Base64
