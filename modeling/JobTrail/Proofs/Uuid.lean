import JobTrail.Uuid
import Mathlib.Tactic.Common

/-!
# Spellings of UUIDs

A UUID has thirty-two hexadecimal digits, and its printed spelling is read as these digits again. Two
spellings of one UUID are therefore printed alike, so ids can be compared by their printed spellings.
-/

namespace JobTrail

theorem hexValue?_hexDigit : ∀ d < 16, hexValue? (hexDigit d) = some d := by decide

theorem hexValue?_lt {c : Char} {d : Nat} (h : hexValue? c = some d) : d < 16 := by
  have hupper : ∀ {a b : Char}, a ≤ b → a.toNat ≤ b.toNat := fun h => h
  unfold hexValue? at h
  split at h
  · rename_i hc
    have hle := hupper hc.2
    cases h
    have hnine : '9'.toNat = 57 := rfl
    have hzero : '0'.toNat = 48 := rfl
    omega
  · split at h
    · rename_i hc
      have hle := hupper hc.2
      cases h
      have hf : 'f'.toNat = 102 := rfl
      have ha : 'a'.toNat = 97 := rfl
      omega
    · split at h
      · rename_i hc
        have hle := hupper hc.2
        cases h
        have hf : 'F'.toNat = 70 := rfl
        have ha : 'A'.toNat = 65 := rfl
        omega
      · cases h

namespace Uuid

def IsDigits (digits : List Nat) : Prop := digits.length = 32 ∧ ∀ d ∈ digits, d < 16

variable {cs : List Char} {digits : List Nat}

theorem digits?_map_hexDigit (h : ∀ d ∈ digits, d < 16) : digits? (digits.map hexDigit) = some digits := by
  induction digits with
  | nil => rfl
  | cons d rest ih =>
    obtain ⟨hd, hrest⟩ := List.forall_mem_cons.mp h
    have htail := ih hrest
    rw [digits?] at htail ⊢
    rw [List.map_cons, List.mapM_cons, hexValue?_hexDigit d hd, htail]
    rfl

theorem digits?_spec (h : digits? cs = some digits) :
    digits.length = cs.length ∧ ∀ d ∈ digits, d < 16 := by
  induction cs generalizing digits with
  | nil =>
    cases h
    simp
  | cons c rest ih =>
    rw [digits?, List.mapM_cons] at h
    obtain ⟨d, hd, h⟩ := Option.bind_eq_some_iff.mp h
    obtain ⟨ds, hds, h⟩ := Option.bind_eq_some_iff.mp h
    cases h
    obtain ⟨hlength, hlt⟩ := ih hds
    exact ⟨by simp [hlength], List.forall_mem_cons.mpr ⟨hexValue?_lt hd, hlt⟩⟩

theorem hyphenated?_isDigits (h : hyphenated? cs = some digits) : IsDigits digits := by
  simp only [hyphenated?] at h
  split at h
  · rename_i hgroups
    obtain ⟨hlength, hlt⟩ := digits?_spec h
    refine ⟨?_, hlt⟩
    rw [hlength, List.length_flatten, hgroups]
    rfl
  · cases h

theorem isDigits_of_parse? {s : String} (h : parse? s = some digits) : IsDigits digits := by
  unfold parse? parseChars? at h
  split at h
  · split at h
    · exact hyphenated?_isDigits h
    · cases h
  · split at h
    · exact hyphenated?_isDigits h
    · split at h
      · rename_i hlength
        obtain ⟨hdigits, hlt⟩ := digits?_spec h
        exact ⟨hdigits.trans hlength, hlt⟩
      · exact hyphenated?_isDigits h

/-! ## Characters of a spelling -/

theorem hexValue?_of_digits? {c : Char} (h : digits? cs = some digits) (hc : c ∈ cs) :
    ∃ d, hexValue? c = some d := by
  induction cs generalizing digits with
  | nil => cases hc
  | cons b rest ih =>
    rw [digits?, List.mapM_cons] at h
    obtain ⟨d, hd, h⟩ := Option.bind_eq_some_iff.mp h
    obtain ⟨ds, hds, -⟩ := Option.bind_eq_some_iff.mp h
    rcases List.mem_cons.mp hc with rfl | hc
    · exact ⟨d, hd⟩
    · exact ih hds hc

theorem mem_flatten_splitOn {mark c : Char} (hne : c ≠ mark) (h : c ∈ cs) : c ∈ (cs.splitOn mark).flatten := by
  induction cs with
  | nil => cases h
  | cons d rest ih =>
    obtain ⟨part, parts, hparts⟩ := List.exists_cons_of_ne_nil (List.splitOn_ne_nil mark rest)
    rw [hparts] at ih
    rw [List.splitOn_cons_eq_if_modifyHead, hparts]
    rcases List.mem_cons.mp h with rfl | h
    · simp [hne]
    · split
      · simpa using ih h
      · simpa using Or.inr (List.mem_append.mp (ih h))

theorem slash_notMem_of_digits? (h : digits? cs = some digits) : '/' ∉ cs := by
  intro hmem
  obtain ⟨d, hd⟩ := hexValue?_of_digits? h hmem
  cases hd

theorem slash_notMem_of_hyphenated? (h : hyphenated? cs = some digits) : '/' ∉ cs := by
  simp only [hyphenated?] at h
  split at h
  · exact fun hmem => slash_notMem_of_digits? h (mem_flatten_splitOn (by decide) hmem)
  · cases h

/-- No spelling of a UUID has a slash in it. -/
theorem slash_notMem {s : String} (h : isUuid s) : '/' ∉ s.toList := by
  obtain ⟨digits, h⟩ := Option.isSome_iff_exists.mp h
  unfold parse? parseChars? at h
  split at h
  · rename_i rest hbraced
    split at h
    · rename_i hlast
      obtain ⟨between, rfl⟩ := List.getLast?_eq_some_iff.mp hlast
      rw [List.dropLast_concat] at h
      rw [hbraced]
      simpa using slash_notMem_of_hyphenated? h
    · cases h
  · split at h
    · rename_i hurn
      rw [← List.take_append_drop 9 s.toList, List.mem_append, not_or]
      refine ⟨fun hmem => ?_, slash_notMem_of_hyphenated? h⟩
      have hlower : Char.toLower '/' ∈ "urn:uuid:".toList := hurn ▸ List.mem_map_of_mem hmem
      exact absurd hlower (by decide)
    · split at h
      · exact slash_notMem_of_digits? h
      · exact slash_notMem_of_hyphenated? h

theorem hyphen_notMem_map (h : ∀ d ∈ digits, d < 16) : '-' ∉ digits.map hexDigit := by
  intro hmem
  obtain ⟨d, hd, he⟩ := List.mem_map.mp hmem
  exact (by decide : ∀ d < 16, hexDigit d ≠ '-') d (h d hd) he

theorem hyphenated?_groups {a b c d e : List Nat} (hlt : ∀ n ∈ a ++ b ++ c ++ d ++ e, n < 16)
    (hlength : [a, b, c, d, e].map List.length = groups) :
    hyphenated? (a.map hexDigit ++ '-' :: (b.map hexDigit ++ '-' :: (c.map hexDigit ++ '-'
      :: (d.map hexDigit ++ '-' :: e.map hexDigit)))) = some (a ++ b ++ c ++ d ++ e) := by
  simp only [List.forall_mem_append] at hlt
  obtain ⟨⟨⟨⟨ha, hb⟩, hc⟩, hd⟩, he⟩ := hlt
  have hsplit : (a.map hexDigit ++ '-' :: (b.map hexDigit ++ '-' :: (c.map hexDigit ++ '-'
      :: (d.map hexDigit ++ '-' :: e.map hexDigit)))).splitOn '-'
      = [a, b, c, d, e].map (List.map hexDigit) := by
    rw [List.splitOn_append_cons_self_of_not_mem (hyphen_notMem_map ha),
      List.splitOn_append_cons_self_of_not_mem (hyphen_notMem_map hb),
      List.splitOn_append_cons_self_of_not_mem (hyphen_notMem_map hc),
      List.splitOn_append_cons_self_of_not_mem (hyphen_notMem_map hd),
      List.splitOn_eq_singleton (hyphen_notMem_map he)]
    rfl
  have hgroups : ([a, b, c, d, e].map (List.map hexDigit)).map List.length = groups := by
    rw [← hlength]
    simp
  simp only [hyphenated?, hsplit, hgroups, if_true]
  have hflat : ([a, b, c, d, e].map (List.map hexDigit)).flatten
      = (a ++ b ++ c ++ d ++ e).map hexDigit := by
    simp
  rw [hflat]
  refine digits?_map_hexDigit ?_
  simp only [List.forall_mem_append]
  exact ⟨⟨⟨⟨ha, hb⟩, hc⟩, hd⟩, he⟩

/-- The printed spelling denotes the digits that were printed. -/
theorem parse?_print (h : IsDigits digits) : parse? (print digits) = some digits := by
  obtain ⟨hlength, hlt⟩ := h
  have hparts : digits.take 8 ++ (digits.drop 8).take 4 ++ (digits.drop 12).take 4
      ++ (digits.drop 16).take 4 ++ digits.drop 20 = digits := by
    have hdrop : ∀ m n, (digits.drop m).take n ++ digits.drop (m + n) = digits.drop m := by
      intro m n
      rw [← List.drop_drop, List.take_append_drop]
    simp only [List.append_assoc, hdrop 16 4, hdrop 12 4, hdrop 8 4, List.take_append_drop]
  have hprint : (print digits).toList = (digits.take 8).map hexDigit ++ '-' :: (((digits.drop 8).take 4).map
      hexDigit ++ '-' :: (((digits.drop 12).take 4).map hexDigit ++ '-' :: (((digits.drop 16).take 4).map
      hexDigit ++ '-' :: (digits.drop 20).map hexDigit))) := by
    simp [print, List.map_take, List.map_drop]
  have hgroups : hyphenated? (print digits).toList = some digits := by
    have hlt' := hparts ▸ hlt
    rw [hprint, hyphenated?_groups hlt', hparts]
    simp [groups, hlength]
  obtain ⟨d, rest, hcons⟩ : ∃ d rest, digits = d :: rest := by
    cases digits with
    | nil => cases hlength
    | cons d rest => exact ⟨d, rest, rfl⟩
  obtain ⟨more, hmore⟩ : ∃ more, (print digits).toList = hexDigit d :: more := by
    rw [hprint, hcons]
    exact ⟨_, rfl⟩
  have hd : d < 16 := hlt d (hcons ▸ List.mem_cons_self)
  have hbrace : hexDigit d ≠ '\x7b' := (by decide : ∀ d < 16, hexDigit d ≠ '\x7b') d hd
  have hurn : (hexDigit d).toLower ≠ 'u' := (by decide : ∀ d < 16, (hexDigit d).toLower ≠ 'u') d hd
  have hlong : (print digits).toList.length ≠ 32 := by
    rw [hprint]
    simp [hlength]
  have hplain : ((print digits).toList.take 9).map Char.toLower ≠ "urn:uuid:".toList := by
    intro he
    rw [hmore, List.take_succ_cons, List.map_cons] at he
    exact hurn (List.cons.inj he).1
  unfold parse? parseChars?
  split
  · rename_i rest' he
    exact absurd (List.cons.inj (hmore.symm.trans he)).1 hbrace
  · rw [if_neg hplain, if_neg hlong, hgroups]

end Uuid
end JobTrail
