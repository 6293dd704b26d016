import JobTrail.Blob.Path
import JobTrail.Proofs.Uuid
import Mathlib

/-!
# Places of files

A path is its segments, and it is valid if each of them names something below its parent. The path of an
uploaded resume tells the digest of its bytes, the path of a tailored resume tells its id, and no path is
of both kinds. The URI of a path leads back to the path.
-/

namespace JobTrail

theorem hexDigit_injective {m n : Nat} (hm : m < 16) (hn : n < 16) (h : hexDigit m = hexDigit n) : m = n := by
  have hvalue := hexValue?_hexDigit m hm
  rw [h, hexValue?_hexDigit n hn] at hvalue
  exact (Option.some.inj hvalue).symm

namespace Hex

theorem encodeBytes_injective {bs cs : List UInt8} (h : encodeBytes bs = encodeBytes cs) : bs = cs := by
  induction bs generalizing cs with
  | nil =>
    cases cs with
    | nil => rfl
    | cons c cs => cases h
  | cons b bs ih =>
    cases cs with
    | nil => cases h
    | cons c cs =>
      simp only [encodeBytes, List.cons.injEq] at h
      obtain ⟨hhigh, hlow, hrest⟩ := h
      have hb : b.toNat < 256 := b.toNat_lt
      have hc : c.toNat < 256 := c.toNat_lt
      have hdiv : b.toNat / 16 = c.toNat / 16 := hexDigit_injective (by omega) (by omega) hhigh
      have hmod : b.toNat % 16 = c.toNat % 16 :=
        hexDigit_injective (Nat.mod_lt _ (by omega)) (Nat.mod_lt _ (by omega)) hlow
      have hnat : b.toNat = c.toNat := by omega
      rw [UInt8.toNat_inj.mp hnat, ih hrest]

theorem mem_encodeBytes {bs : List UInt8} {c : Char} (h : c ∈ encodeBytes bs) :
    ∃ d < 16, c = hexDigit d := by
  induction bs with
  | nil => cases h
  | cons b bs ih =>
    have hb : b.toNat < 256 := b.toNat_lt
    simp only [encodeBytes, List.mem_cons] at h
    rcases h with rfl | rfl | h
    · exact ⟨b.toNat / 16, by omega, rfl⟩
    · exact ⟨b.toNat % 16, by omega, rfl⟩
    · exact ih h

end Hex

namespace BlobPath

variable {path user file : String}

/-! ## Segments -/

theorem segments_injective {p q : String} (h : segments p = segments q) : p = q := by
  have hsplit : p.toList.splitOn '/' = q.toList.splitOn '/' :=
    List.map_injective_iff.mpr (fun _ _ h => String.ofList_injective h) h
  have hchars := congrArg (['/'].intercalate ·) hsplit
  simp only [List.intercalate_splitOn] at hchars
  exact String.toList_injective hchars

theorem segments_ne_nil (path : String) : segments path ≠ [] := by
  simp [segments, List.splitOn_ne_nil]

theorem isValid_iff : isValid path ↔ ∀ s ∈ segments path, s ≠ "" ∧ s ≠ "." ∧ s ≠ ".." := by
  simp [isValid, isPlain, and_assoc]

theorem not_isValid_of_head (h : path.toList.head? = some '/') : ¬ isValid path := by
  obtain ⟨rest, hrest⟩ := List.head?_eq_some_iff.mp h
  have hsplit := List.splitOn_append_cons_self_of_not_mem (a := '/') List.not_mem_nil rest
  rw [List.nil_append] at hsplit
  intro hvalid
  have hempty : "" ∈ segments path := by simp [segments, hrest, hsplit]
  exact (isValid_iff.mp hvalid "" hempty).1 rfl

/-- Dots alone are short. -/
theorem isPlain_of_length {segment : String} (h : 2 < segment.length) : isPlain segment := by
  simp only [isPlain, Bool.and_eq_true, decide_eq_true_eq]
  refine ⟨⟨?_, ?_⟩, ?_⟩
  all_goals
    intro he
    rw [he] at h
    exact absurd h (by decide)

theorem ofSegment?_of_isPlain {segment : String} (h : isPlain segment) :
    Component.ofSegment? segment = some (.normal segment) := by
  obtain ⟨hempty, hdot, hdots⟩ : segment ≠ "" ∧ segment ≠ "." ∧ segment ≠ ".." := by
    simpa [isPlain, and_assoc] using h
  rw [Component.ofSegment?, if_neg (not_or.mpr ⟨hempty, hdot⟩), if_neg hdots]

theorem filterMap_ofSegment?_of_isValid (h : isValid path) :
    (segments path).filterMap Component.ofSegment? = (segments path).map .normal := by
  rw [List.filterMap_congr fun segment hmem => ofSegment?_of_isPlain (List.all_eq_true.mp h segment hmem)]
  exact congrFun List.filterMap_eq_map _

/-- The two ways to take a path apart agree if its text is valid. -/
theorem components_of_isValid (h : isValid path) : components path = (segments path).map .normal := by
  obtain ⟨first, rest, hsegments⟩ := List.exists_cons_of_ne_nil (segments_ne_nil path)
  obtain ⟨hempty, hdot, -⟩ := isValid_iff.mp h first (hsegments ▸ List.mem_cons_self)
  rw [components, filterMap_ofSegment?_of_isValid h, hsegments, front, if_neg fun hroot => hempty hroot.1,
    if_neg hdot, List.nil_append]

theorem ne_empty_of_isValid (h : isValid path) : path ≠ "" := by
  rintro rfl
  exact absurd h (by decide)

theorem check_of_isValid (h : isValid path) : check path = .ok (segments path) := by
  have hfront : path.toList.head? ≠ some '/' := fun hhead => not_isValid_of_head hhead h
  have hnormal : (components path).all Component.isNormal := by
    simp [components_of_isValid h, Component.isNormal]
  have htext : ¬ (path = "" ∨ path.toList.head? = some '/' ∨ ¬ isValid path) :=
    not_or.mpr ⟨ne_empty_of_isValid h, not_or.mpr ⟨hfront, not_not_intro h⟩⟩
  rw [check, if_neg htext, if_pos hnormal]

theorem check_of_not_isValid (h : ¬ isValid path) : check path = .error (.invalidPath path) :=
  if_pos (.inr (.inr h))

theorem check_eq_ok_iff {names : List String} : check path = .ok names ↔ isValid path ∧ names = segments path := by
  by_cases hvalid : isValid path
  · simp [check_of_isValid hvalid, hvalid, eq_comm]
  · simp [check_of_not_isValid hvalid, hvalid]

theorem isValid_of_check {names : List String} (h : check path = .ok names) : isValid path :=
  (check_eq_ok_iff.mp h).1

/-! ## Uploaded and tailored resumes -/

def digest (bytes : ByteArray) : List UInt8 := Sha256.digest bytes.data.toList

/-- The last segment of the path of an uploaded resume. -/
def storedName (file : String) (bytes : ByteArray) : List Char :=
  Hex.encodeBytes (digest bytes) ++ '.' :: (storedExtension file).toList

theorem isDigit_or_isLower_of_mem {c : Char} (h : c ∈ (storedExtension file).toList) : c.isDigit ∨ c.isLower := by
  unfold storedExtension at h
  split at h
  · rename_i e he
    obtain ⟨-, hall⟩ := Option.filter_eq_some_iff.mp he
    rw [String.toList_ofList] at h
    obtain ⟨d, hd, rfl⟩ := List.mem_map.mp h
    by_cases halpha : d.isAlpha
    · exact .inr (by rw [Char.isLower_toLower_eq_isAlpha, halpha])
    · have hdigit : d.isDigit := by
        simpa [Char.isAlphanum, halpha] using List.all_eq_true.mp hall d hd
      rw [Char.toLower_eq_of_not_isUpper fun hupper => halpha (by simp [Char.isAlpha, hupper])]
      exact .inl hdigit
  · have hmem : c = 'p' ∨ c = 'd' ∨ c = 'f' := by simpa using h
    rcases hmem with rfl | rfl | rfl <;> exact .inr rfl

theorem notMem_storedName (file : String) (bytes : ByteArray) : '/' ∉ storedName file bytes := by
  intro h
  rcases List.mem_append.mp h with hdigest | hrest
  · obtain ⟨d, hd, he⟩ := Hex.mem_encodeBytes hdigest
    exact (by decide : ∀ d < 16, '/' ≠ hexDigit d) d hd he
  · rcases List.mem_cons.mp hrest with he | hextension
    · cases he
    · exact absurd (isDigit_or_isLower_of_mem hextension) (by decide)

theorem digest_of_storedName {file file' : String} {bytes bytes' : ByteArray}
    (h : storedName file bytes = storedName file' bytes') : digest bytes = digest bytes' := by
  have hdot : ∀ bs, '.' ∉ Hex.encodeBytes bs := by
    intro bs hmem
    obtain ⟨d, hd, he⟩ := Hex.mem_encodeBytes hmem
    exact (by decide : ∀ d < 16, '.' ≠ hexDigit d) d hd he
  have hsplit := congrArg (List.splitOn '.') h
  unfold storedName at hsplit
  rw [List.splitOn_append_cons_self_of_not_mem (hdot _), List.splitOn_append_cons_self_of_not_mem (hdot _)]
    at hsplit
  exact Hex.encodeBytes_injective (List.cons.inj hsplit).1

theorem segments_resume (user file : String) (bytes : ByteArray) :
    segments (resume user file bytes)
      = "resumes" :: (segments user ++ [String.ofList (storedName file bytes)]) := by
  have hchars : (resume user file bytes).toList
      = "resumes".toList ++ '/' :: (user.toList ++ '/' :: storedName file bytes) := by
    simp [resume, storedName, digest]
  have hplain : '/' ∉ "resumes".toList := by decide
  rw [segments, hchars, List.splitOn_append_cons_self_of_not_mem hplain, List.splitOn_append_cons_self,
    List.splitOn_eq_singleton (notMem_storedName file bytes)]
  simp [segments]

theorem segments_tailored (id : String) : segments (tailored id) = "tailored" :: segments (id ++ ".pdf") := by
  have hchars : (tailored id).toList = "tailored".toList ++ '/' :: (id ++ ".pdf").toList := by
    simp [tailored]
  have hplain : '/' ∉ "tailored".toList := by decide
  rw [segments, hchars, List.splitOn_append_cons_self_of_not_mem hplain]
  simp [segments]

/-- An id without a slash is one name, and the suffix keeps it from being dots alone. -/
theorem check_tailored {id : String} (h : '/' ∉ id.toList) :
    check (tailored id) = .ok ["tailored", id ++ ".pdf"] := by
  have hname : '/' ∉ (id ++ ".pdf").toList := by simp [h]
  have hsegments : segments (tailored id) = ["tailored", id ++ ".pdf"] := by
    rw [segments_tailored, segments, List.splitOn_eq_singleton hname]
    simp
  have hplain : isPlain (id ++ ".pdf") := by
    have hsuffix : ".pdf".length = 4 := rfl
    apply isPlain_of_length
    rw [String.length_append]
    omega
  have hvalid : isValid (tailored id) := by
    rw [isValid, hsegments, List.all_cons, List.all_cons, hplain]
    decide
  rw [check_of_isValid hvalid, hsegments]

/-- Two uploads that go to the same place have the same digest. -/
theorem digest_of_resume {user user' file file' : String} {bytes bytes' : ByteArray}
    (h : resume user file bytes = resume user' file' bytes') : digest bytes = digest bytes' := by
  have hsegments := congrArg segments h
  rw [segments_resume, segments_resume, List.cons.injEq, List.append_singleton_inj] at hsegments
  exact digest_of_storedName (String.ofList_injective hsegments.2.2)

theorem resume_ne_tailored (user file id : String) (bytes : ByteArray) :
    resume user file bytes ≠ tailored id := by
  intro h
  have hsegments := congrArg segments h
  rw [segments_resume, segments_tailored, List.cons.injEq] at hsegments
  exact absurd hsegments.1 (by simp)

theorem eq_of_between_eq {front back s t : String} (h : front ++ s ++ back = front ++ t ++ back) : s = t := by
  have hchars := congrArg String.toList h
  simp only [String.toList_append, List.append_assoc, List.append_cancel_left_eq,
    List.append_cancel_right_eq] at hchars
  exact String.toList_injective hchars

theorem tailored_injective {id id' : String} (h : tailored id = tailored id') : id = id' :=
  eq_of_between_eq h

theorem tailoredDownload_injective {id id' : String} (h : tailoredDownload id = tailoredDownload id') :
    id = id' := eq_of_between_eq h

/-! ## URIs -/

theorem stripFront_eq_some_iff {front s rest : List Char} :
    stripFront front s = some rest ↔ s = front ++ rest := by
  induction front generalizing s with
  | nil => simp [stripFront]
  | cons c front ih =>
    cases s with
    | nil => simp [stripFront]
    | cons d s =>
      by_cases hc : c = d
      · subst d
        simp [stripFront, ih]
      · simp [stripFront, hc, Ne.symm hc]

/-- A URI leads to a path exactly if it is the public path, without the slashes at its end, followed by a
slash and the path. -/
theorem ofUri?_eq_some_iff {publicPath uri : String} :
    ofUri? publicPath uri = some path ↔ uri = trimSlashes publicPath ++ "/" ++ path ∧ path ≠ "" := by
  have hchars : uri = trimSlashes publicPath ++ "/" ++ path ↔
      uri.toList = (trimSlashes publicPath).toList ++ ['/'] ++ path.toList := by
    rw [← String.toList_inj]
    simp
  rw [hchars, ← stripFront_eq_some_iff, ofUri?]
  cases hrest : stripFront ((trimSlashes publicPath).toList ++ ['/']) uri.toList with
  | none => simp
  | some rest =>
    cases rest with
    | nil =>
      constructor
      · intro h
        cases h
      · rintro ⟨hnil, hne⟩
        exact absurd (String.toList_eq_nil_iff.mp (Option.some.inj hnil).symm) hne
    | cons c rest =>
      constructor
      · intro h
        cases h
        simp
      · rintro ⟨hchars, -⟩
        have hpath : String.ofList (c :: rest) = path := by
          rw [Option.some.inj hchars, String.ofList_toList]
        exact congrArg some hpath

end BlobPath
end JobTrail
