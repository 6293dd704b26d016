import Mathlib

/-!
# Texts in the order of their bytes

A text that comes before another by its characters also comes before it by its bytes in UTF-8: the bytes of
two different characters differ before either of them ends, and there the smaller character has the smaller byte.
-/

namespace JobTrail

theorem toUTF8_toList (s : String) : s.toUTF8.data.toList = s.toList.flatMap String.utf8EncodeChar := by
  have hs : s.toUTF8 = s.toList.utf8Encode := String.utf8Encode_toList.symm
  rw [hs, List.utf8Encode, List.toList_data_toByteArray]

/-- What stands behind two different characters has no part in the order of their bytes. -/
theorem utf8EncodeChar_append_lt {c d : Char} (h : c < d) (xs ys : List UInt8) :
    String.utf8EncodeChar c ++ xs < String.utf8EncodeChar d ++ ys := by
  have hcd : c.val.toNat < d.val.toNat := UInt32.lt_iff_toNat_lt.mp (Char.lt_def.mp h)
  have hd : d.val.toNat < 1114112 := by
    rcases d.valid with hsmall | hlarge
    · exact hsmall.trans (by decide)
    · exact hlarge.2
  -- Each byte holds six more bits, so the quotients are those of one another.
  have hsixes (v : Nat) : v / 4096 = v / 64 / 64 ∧ v / 262144 = v / 64 / 64 / 64 := by omega
  simp only [String.utf8EncodeChar, hsixes]
  by_cases hrest : xs < ys <;> split_ifs <;>
    simp (disch := omega) only [List.cons_append, List.nil_append, List.cons_lt_cons_iff,
      UInt8.lt_iff_toNat_lt, ← UInt8.toNat_inj, UInt8.toNat_ofNat', Nat.mod_eq_of_lt, hrest, and_true,
      and_false, or_false] <;>
    omega

theorem utf8EncodeChar_ne_nil (c : Char) : String.utf8EncodeChar c ≠ [] := by
  simp only [String.utf8EncodeChar]
  split_ifs <;> simp

theorem flatMap_utf8EncodeChar_lt {cs ds : List Char} (h : cs < ds) :
    cs.flatMap String.utf8EncodeChar < ds.flatMap String.utf8EncodeChar := by
  induction cs generalizing ds with
  | nil =>
    cases ds with
    | nil => exact absurd h (List.lt_irrefl [])
    | cons d ds =>
      obtain ⟨b, bs, hbytes⟩ := List.exists_cons_of_ne_nil (utf8EncodeChar_ne_nil d)
      rw [List.flatMap_cons, hbytes]
      exact List.nil_lt_cons _ _
  | cons c cs ih =>
    cases ds with
    | nil => exact absurd h (List.not_lt_nil _)
    | cons d ds =>
      rw [List.flatMap_cons, List.flatMap_cons]
      rcases List.cons_lt_cons_iff.mp h with hcd | ⟨rfl, hrest⟩
      · exact utf8EncodeChar_append_lt hcd _ _
      · exact List.append_left_lt (ih hrest)

theorem toUTF8_lt {s t : String} (h : s < t) : s.toUTF8.data.toList < t.toUTF8.data.toList := by
  rw [toUTF8_toList, toUTF8_toList]
  exact flatMap_utf8EncodeChar_lt (String.lt_iff.mp h)

end JobTrail
