import JobTrail.Proofs.Text.Splitting
import JobTrail.Text.Percent

/-!
# Percent encoding, piece by piece

Encoding goes character by character, so it leaves the marks between the fields of a form where they are and
makes no new ones. The fields of an encoded query are hence those of its pieces.
-/

namespace JobTrail.Percent

variable {allowed : Char → Bool} {p q : List Char}

theorem encodeChar_ne_nil (allowed : Char → Bool) (c : Char) : encodeChar allowed c ≠ [] := by
  unfold encodeChar
  split
  · simp
  · intro h
    have hbytes : utf8 [c] = [] := by
      rw [List.flatMap_eq_nil_iff] at h
      by_contra hne
      obtain ⟨b, rest, hb⟩ := List.exists_cons_of_ne_nil hne
      cases h b (by simp [hb])
    have hempty : (String.ofList [c]).toByteArray = "".toByteArray := by
      apply ByteArray.ext
      apply Array.toList_inj.mp
      exact hbytes
    have hstring : String.ofList [c] = "" := String.toByteArray_inj.mp hempty
    simpa using congrArg String.toList hstring

theorem encode_ne_nil (h : p ≠ []) : encode allowed p ≠ [] := by
  obtain ⟨c, rest, rfl⟩ := List.exists_cons_of_ne_nil h
  rw [encode, List.flatMap_cons]
  exact List.append_ne_nil_of_left_ne_nil (encodeChar_ne_nil allowed c) _

theorem encode_append (allowed : Char → Bool) (p q : List Char) :
    encode allowed (p ++ q) = encode allowed p ++ encode allowed q := List.flatMap_append

theorem encode_cons_allowed {c : Char} (h : allowed c) (p : List Char) :
    encode allowed (c :: p) = c :: encode allowed p := by
  rw [encode, List.flatMap_cons, encodeChar, if_pos h]
  rfl

/-- A character that is neither a percent sign nor a digit comes from itself only. -/
theorem notMem_encode {mark : Char} (hmark : mark ≠ '%')
    (hdigit : ∀ n < 16, (hexDigit n).toUpper ≠ mark) (h : mark ∉ p) : mark ∉ encode allowed p := by
  intro hmem
  obtain ⟨c, hc, hmem⟩ := List.mem_flatMap.mp hmem
  unfold encodeChar at hmem
  split at hmem
  · rw [List.mem_singleton] at hmem
    exact h (hmem ▸ hc)
  · obtain ⟨b, -, hb⟩ := List.mem_flatMap.mp hmem
    have hsize := b.toNat_lt
    simp only [encodeByte, List.mem_cons, List.not_mem_nil, or_false] at hb
    rcases hb with hb | hb | hb
    · exact hmark hb
    · exact hdigit _ (by omega) hb.symm
    · exact hdigit _ (by omega) hb.symm

theorem ampersand_notMem_encode (h : '&' ∉ p) : '&' ∉ encode allowed p :=
  notMem_encode (by decide) (by decide) h

theorem equals_notMem_encode (h : '=' ∉ p) : '=' ∉ encode allowed p :=
  notMem_encode (by decide) (by decide) h

/-! ## Fields -/

theorem formFields_append (a b : List Char) :
    formFields (String.ofList (a ++ '&' :: b))
      = formFields (String.ofList a) ++ formFields (String.ofList b) := by
  simp only [formFields, String.toList_ofList, List.splitOn_append_cons_self, List.filterMap_append]

/-- A piece with an equals sign is one field. -/
theorem formFields_field {key value : List Char} (hkey : '&' ∉ key ∧ '=' ∉ key) (hvalue : '&' ∉ value) :
    formFields (String.ofList (key ++ '=' :: value)) = [(decodeFormPart key, decodeFormPart value)] := by
  have hpiece : '&' ∉ key ++ '=' :: value := by
    simp [hkey.1, hvalue]
  obtain ⟨htake, hdrop⟩ := takeWhile_ne_append hkey.2 value
  rw [formFields, String.toList_ofList, List.splitOn_eq_singleton hpiece, List.filterMap_cons,
    List.filterMap_nil, htake, hdrop]
  simp

end JobTrail.Percent
