import JobTrail.Proofs.Blob.Store
import JobTrail.Proofs.Text.Splitting

/-!
# Names of uploaded files

An uploaded resume lies under a name that is made of the digest of its bytes and of the extension of the client's
file name. The digest is a name of its own length on every disk, but the extension is the client's: it may be empty,
behind a dot at the end of the name, and it may be longer than a disk takes.
-/

namespace JobTrail

namespace Disk

variable {d : Disk} {path rest : List String} {n : Nat} {bytes : ByteArray}

/-! ## Writing where nothing lies -/

/-- Nothing but directories, and none further down than a depth. -/
def Shallow (n : Nat) (d : Disk) : Prop :=
  ∀ path entry, d.find? path = some entry → entry = .directory ∧ path.length ≤ n

theorem shallow_empty (n : Nat) : Shallow n .empty := by
  intro path entry h
  rw [find?_empty] at h
  split at h
  · rename_i hroot
    cases h
    exact ⟨rfl, hroot ▸ Nat.zero_le n⟩
  · cases h

theorem Shallow.insert (h : Shallow n d) (hne : path ≠ []) (hlength : path.length ≤ n) :
    Shallow n (d.insert path .directory) := by
  intro q entry hq
  rw [find?_insert d hne] at hq
  split at hq
  · rename_i hsame
    cases hq
    exact ⟨rfl, hsame ▸ hlength⟩
  · exact h q entry hq

theorem Shallow.makeDirectories (h : Shallow n d) (hlength : path.length + rest.length ≤ n)
    (hshort : ∀ name ∈ rest, ¬ isTooLong name) :
    Shallow n (d.makeDirectories path rest).1 ∧ (d.makeDirectories path rest).2 = true := by
  induction rest generalizing d path with
  | nil => exact ⟨h, rfl⟩
  | cons name rest ih =>
    obtain ⟨hname, hrest⟩ := List.forall_mem_cons.mp hshort
    have hlonger : (path ++ [name]).length + rest.length ≤ n := by
      simp only [List.length_append, List.length_cons, List.length_nil] at hlength ⊢
      omega
    simp only [Disk.makeDirectories, if_neg hname]
    split
    · exact ih h hlonger hrest
    · rename_i hfile
      cases (h _ _ hfile).1
    · exact ih (h.insert (by simp) (by omega)) hlonger hrest

theorem write_of_not_isName {name : String} (h : ¬ IsName name) : (d.write (path ++ [name]) bytes).2 = false := by
  simp only [write, List.dropLast_concat, List.getLast?_concat, Option.getD_some]
  split
  · rfl
  · rw [if_pos]
    by_contra hgood
    simp only [not_or] at hgood
    exact h hgood.2

/-- On an empty disk a file can be written under every path of names. -/
theorem write_empty (hne : path ≠ []) (hnames : ∀ name ∈ path, IsName name) :
    (Disk.empty.write path bytes).2 = true := by
  obtain ⟨parent, name, rfl⟩ := List.eq_nil_or_concat path |>.resolve_left hne
  rw [List.concat_eq_append] at hnames ⊢
  obtain ⟨hparent, hname⟩ := List.forall_mem_append.mp hnames
  have hname := hname name List.mem_cons_self
  have hnul : ¬ parent.any hasNul := by simpa using fun n hn => (hparent n hn).1
  obtain ⟨hshallow, hmade⟩ : Shallow parent.length (Disk.empty.makeDirectories [] parent).1
      ∧ (Disk.empty.makeDirectories [] parent).2 = true :=
    (shallow_empty parent.length).makeDirectories (by simp) fun n hn => (hparent n hn).2
  simp only [write, List.dropLast_concat, List.getLast?_concat, Option.getD_some, if_neg hnul, hmade,
    hname.1, hname.2]
  split
  · rename_i hbad
    simp at hbad
  · split
    · rename_i hdirectory
      have hlength := (hshallow _ _ hdirectory).2
      simp at hlength
    · rfl

end Disk

namespace BlobPath

variable {user file file' e : String} {bytes : ByteArray} {c : Char}

/-! ## Extensions -/

/-- The text behind the last dot in the last segment of a name, where empty segments and single dots at the end are
passed over. The dot may not be the first character, and a double dot is no name. -/
def HasExtension (file e : String) : Prop :=
  ∃ before stem after, segments file = before ++ (stem ++ "." ++ e) :: after ∧ (∀ s ∈ after, s = "" ∨ s = ".")
    ∧ stem ++ "." ++ e ≠ ".." ∧ stem ≠ "" ∧ '.' ∉ e.toList

theorem fileName?_eq_some_iff {name : String} :
    fileName? file = some name ↔ ∃ before after, segments file = before ++ name :: after
      ∧ (∀ s ∈ after, s = "" ∨ s = ".") ∧ name ≠ "" ∧ name ≠ "." ∧ name ≠ ".." := by
  have hlast : ((segments file).filter fun s => s ≠ "" ∧ s ≠ ".").getLast? = some name ↔
      ∃ before after, segments file = before ++ name :: after ∧ (∀ s ∈ after, s = "" ∨ s = ".")
        ∧ name ≠ "" ∧ name ≠ "." := by
    rw [List.getLast?_filter, List.find?_eq_some_iff_append]
    constructor
    · rintro ⟨hname, after, before, hsegments, hafter⟩
      refine ⟨before.reverse, after.reverse, ?_, ?_, by simpa using hname⟩
      · rw [← List.reverse_inj, hsegments]
        simp
      · intro s hs
        have hskipped := hafter s (List.mem_reverse.mp hs)
        by_contra hplain
        simp_all
    · rintro ⟨before, after, hsegments, hafter, hname⟩
      refine ⟨by simpa using hname, after.reverse, before.reverse, by simp [hsegments], ?_⟩
      intro s hs
      rcases hafter s (List.mem_reverse.mp hs) with rfl | rfl <;> rfl
  unfold fileName?
  split
  · rename_i hdots
    constructor
    · intro h
      cases h
    · rintro ⟨before, after, hsegments, hafter, hempty, hdot, hne⟩
      have hname := hlast.mpr ⟨before, after, hsegments, hafter, hempty, hdot⟩
      rw [hdots] at hname
      exact absurd (Option.some.inj hname).symm hne
  · rename_i hdots
    rw [hlast]
    constructor
    · rintro ⟨before, after, hsegments, hafter, hempty, hdot⟩
      have hname := hlast.mpr ⟨before, after, hsegments, hafter, hempty, hdot⟩
      exact ⟨before, after, hsegments, hafter, hempty, hdot, fun he => hdots (he ▸ hname)⟩
    · rintro ⟨before, after, hsegments, hafter, hempty, hdot, -⟩
      exact ⟨before, after, hsegments, hafter, hempty, hdot⟩

/-- The last dot of a name, if it is not in front, and what stands on its sides. -/
theorem lastDot_eq_some_iff {cs : List Char} :
    (if ((cs.reverse.dropWhile (· ≠ '.')).drop 1).isEmpty then none
      else some (String.ofList (cs.reverse.takeWhile (· ≠ '.')).reverse)) = some e ↔
    ∃ stem, cs = stem ++ '.' :: e.toList ∧ stem ≠ [] ∧ '.' ∉ e.toList := by
  constructor
  · intro h
    by_cases hmem : '.' ∈ cs.reverse
    · obtain ⟨behind, before, hreverse, hbehind⟩ := List.eq_append_cons_of_mem hmem
      obtain ⟨htake, hdrop⟩ := takeWhile_ne_append hbehind before
      rw [hreverse, htake, hdrop] at h
      split at h
      · cases h
      · rename_i hbefore
        cases h
        refine ⟨before.reverse, ?_, by simpa using hbefore, by simpa using hbehind⟩
        rw [String.toList_ofList, ← List.reverse_inj, hreverse]
        simp
    · rw [(takeWhile_all (ne_of_notMem hmem)).2] at h
      cases h
  · rintro ⟨stem, rfl, hstem, hdot⟩
    have hreverse : (stem ++ '.' :: e.toList).reverse = e.toList.reverse ++ '.' :: stem.reverse := by simp
    obtain ⟨htake, hdrop⟩ := takeWhile_ne_append (by simpa using hdot : '.' ∉ e.toList.reverse) stem.reverse
    rw [hreverse, hdrop, htake, if_neg (by simpa using hstem), List.reverse_reverse, String.ofList_toList]

theorem extension?_eq_some_iff : extension? file = some e ↔ HasExtension file e := by
  rw [extension?, Option.bind_eq_some_iff]
  constructor
  · rintro ⟨name, hname, hdot⟩
    obtain ⟨stem, hchars, hstem, hnodot⟩ := lastDot_eq_some_iff.mp hdot
    obtain ⟨before, after, hsegments, hafter, -, -, hdots⟩ := fileName?_eq_some_iff.mp hname
    have hwhole : name = String.ofList stem ++ "." ++ e := by
      rw [← String.toList_inj, hchars]
      simp
    subst hwhole
    exact ⟨before, _, after, hsegments, hafter, hdots, by simpa using hstem, hnodot⟩
  · rintro ⟨before, stem, after, hsegments, hafter, hdots, hstem, hnodot⟩
    have hchars : (stem ++ "." ++ e).toList = stem.toList ++ '.' :: e.toList := by simp
    have hlong : 2 ≤ (stem ++ "." ++ e).length := by
      have hpos : stem.length ≠ 0 := fun h => hstem (String.length_eq_zero_iff.mp h)
      have hdot : ".".length = 1 := rfl
      rw [String.length_append, String.length_append]
      omega
    refine ⟨_, fileName?_eq_some_iff.mpr ⟨before, after, hsegments, hafter, ?_, ?_, hdots⟩,
      lastDot_eq_some_iff.mpr ⟨stem.toList, hchars, by simpa using hstem, hnodot⟩⟩
    all_goals
      intro he
      rw [he] at hlong
      exact absurd hlong (by decide)

/-- The extension of a client's file is what is stored, in lowercase, if it is letters and digits. -/
theorem storedExtension_of_hasExtension (h : HasExtension file e) (halnum : ∀ c ∈ e.toList, c.isAlphanum) :
    storedExtension file = String.ofList (e.toList.map Char.toLower) := by
  have hfilter : (extension? file).filter (fun e => e.toList.all Char.isAlphanum) = some e :=
    Option.filter_eq_some_iff.mpr ⟨extension?_eq_some_iff.mpr h, List.all_eq_true.mpr halnum⟩
  rw [storedExtension, hfilter]

theorem storedExtension_of_forall_not (h : ∀ e, HasExtension file e → ¬ ∀ c ∈ e.toList, c.isAlphanum) :
    storedExtension file = "pdf" := by
  have hfilter : (extension? file).filter (fun e => e.toList.all Char.isAlphanum) = none := by
    rw [Option.filter_eq_none_iff]
    intro e he
    rw [List.all_eq_true]
    exact h e (extension?_eq_some_iff.mp he)
  rw [storedExtension, hfilter]

theorem HasExtension.unique {e' : String} (h : HasExtension file e) (h' : HasExtension file e') : e = e' :=
  Option.some.inj ((extension?_eq_some_iff.mpr h).symm.trans (extension?_eq_some_iff.mpr h'))

/-- What is stored is one to as many letters as are asked for exactly if the client's extension is. -/
theorem storedExtension_length_iff {n : Nat} (hn : 3 ≤ n) :
    storedExtension file ≠ "" ∧ (storedExtension file).length ≤ n ↔
      ∀ e, HasExtension file e → (∀ c ∈ e.toList, c.isAlphanum) → e ≠ "" ∧ e.length ≤ n := by
  by_cases hclient : ∃ e, HasExtension file e ∧ ∀ c ∈ e.toList, c.isAlphanum
  · obtain ⟨e, hextension, halnum⟩ := hclient
    have hempty : String.ofList (e.toList.map Char.toLower) = "" ↔ e = "" := by
      rw [← String.toList_eq_nil_iff, ← String.toList_eq_nil_iff, String.toList_ofList, List.map_eq_nil_iff]
    rw [storedExtension_of_hasExtension hextension halnum, ne_eq, hempty, String.length_ofList, List.length_map,
      String.length_toList]
    constructor
    · rintro hlength e' he' -
      rwa [he'.unique hextension]
    · intro h
      exact h e hextension halnum
  · simp only [not_exists, not_and] at hclient
    rw [storedExtension_of_forall_not hclient]
    exact iff_of_true ⟨by decide, hn⟩ fun e he halnum => absurd halnum (hclient e he)

/-! ## Equal extensions -/

theorem isAlphanum_toLower (c : Char) : c.toLower.isAlphanum = c.isAlphanum := by
  by_cases hupper : c.isUpper
  · have halpha : c.isAlpha := by simp [Char.isAlpha, hupper]
    simp [Char.isAlphanum, Char.isAlpha_toLower_eq_isAlpha, halpha]
  · rw [Char.toLower_eq_of_not_isUpper hupper]

/-- Whether an extension is stored can be seen after it is put in lowercase. -/
theorem storedExtension_eq (file : String) :
    storedExtension file = String.ofList
      ((((extension? file).map (·.toList.map Char.toLower)).filter (·.all Char.isAlphanum)).getD "pdf".toList) := by
  unfold storedExtension
  cases extension? file with
  | none => rfl
  | some e =>
    have hall : (e.toList.map Char.toLower).all Char.isAlphanum = e.toList.all Char.isAlphanum := by
      rw [List.all_map]
      exact congrArg e.toList.all (funext isAlphanum_toLower)
    rw [Option.map_some, Option.filter_some, Option.filter_some, hall]
    cases e.toList.all Char.isAlphanum <;> rfl

/-- The same extension but for the case of its letters, or none on either side. -/
def SameExtension (file file' : String) : Prop :=
  (extension? file).map (·.toList.map Char.toLower) = (extension? file').map (·.toList.map Char.toLower)

instance (file file' : String) : Decidable (SameExtension file file') := inferInstanceAs (Decidable (_ = _))

theorem storedExtension_congr (h : SameExtension file file') : storedExtension file = storedExtension file' := by
  rw [storedExtension_eq, storedExtension_eq, show _ = _ from h]

/-! ## Stored names -/

/-- A digit, or one of the letters that hexadecimal digits are written with. -/
def isLowerHex (c : Char) : Prop := c.isDigit ∨ 'a' ≤ c ∧ c ≤ 'f'

/-- Sixty-four hexadecimal digits, a dot, and at least one letter or digit, all in lowercase. -/
structure IsStoredName (name : String) : Prop where
  parts : ∃ digits extension, name.toList = digits ++ '.' :: extension ∧ digits.length = 64
    ∧ (∀ c ∈ digits, isLowerHex c) ∧ extension ≠ [] ∧ ∀ c ∈ extension, c.isDigit ∨ c.isLower

theorem isLowerHex_hexDigit : ∀ d < 16, isLowerHex (hexDigit d) := by
  unfold isLowerHex
  decide

theorem length_encodeBytes (bs : List UInt8) : (Hex.encodeBytes bs).length = 2 * bs.length := by
  induction bs with
  | nil => rfl
  | cons b bs ih => simp only [Hex.encodeBytes, List.length_cons, ih]; omega

theorem length_digest (bytes : ByteArray) : (digest bytes).length = 32 := by
  simp [digest, Sha256.digest, Sha256.wordBytes]

theorem isStoredName_iff (file : String) (bytes : ByteArray) :
    IsStoredName (String.ofList (storedName file bytes)) ↔ storedExtension file ≠ "" := by
  have hlength : (Hex.encodeBytes (digest bytes)).length = 64 := by
    rw [length_encodeBytes, length_digest]
  rw [ne_eq, ← String.toList_eq_nil_iff]
  constructor
  · rintro ⟨digits, extension, hparts, hdigits, -, hne, -⟩
    rw [String.toList_ofList, storedName] at hparts
    have hrest := (List.append_inj hparts (hlength.trans hdigits.symm)).2
    rwa [(List.cons.inj hrest).2]
  · intro hne
    refine ⟨_, _, String.toList_ofList, hlength, ?_, hne, fun c hc => isDigit_or_isLower_of_mem hc⟩
    intro c hc
    obtain ⟨d, hd, rfl⟩ := Hex.mem_encodeBytes hc
    exact isLowerHex_hexDigit d hd

/-- A name of ASCII characters takes a byte for each of them. -/
theorem utf8ByteSize_ofList {cs : List Char} (h : ∀ c ∈ cs, c.toNat < 128) :
    (String.ofList cs).utf8ByteSize = cs.length := by
  rw [String.utf8ByteSize_ofList]
  induction cs with
  | nil => rfl
  | cons c cs ih =>
    obtain ⟨hc, hcs⟩ := List.forall_mem_cons.mp h
    have hone : c.utf8Size = 1 := Char.utf8Size_eq_one_iff.mpr (UInt32.le_iff_toNat_le.mpr (Nat.le_of_lt_succ hc))
    rw [String.utf8Len_cons, ih hcs, hone, List.length_cons]

theorem toNat_lt_of_mem_storedName (h : c ∈ storedName file bytes) : 0 < c.toNat ∧ c.toNat < 128 := by
  rcases List.mem_append.mp h with hdigest | hrest
  · obtain ⟨d, hd, rfl⟩ := Hex.mem_encodeBytes hdigest
    exact (by decide : ∀ d < 16, 0 < (hexDigit d).toNat ∧ (hexDigit d).toNat < 128) d hd
  · rcases List.mem_cons.mp hrest with rfl | hextension
    · decide
    · have hchar := isDigit_or_isLower_of_mem hextension
      simp only [Char.isDigit, Char.isLower, Bool.and_eq_true, decide_eq_true_eq, UInt32.le_iff_toNat_le,
        ge_iff_le] at hchar
      rcases hchar with ⟨hlow, hhigh⟩ | ⟨hlow, hhigh⟩
      all_goals exact ⟨lt_of_lt_of_le (by decide) hlow, lt_of_le_of_lt hhigh (by decide)⟩

theorem utf8ByteSize_storedName (file : String) (bytes : ByteArray) :
    (String.ofList (storedName file bytes)).utf8ByteSize = 65 + (storedExtension file).length := by
  rw [utf8ByteSize_ofList fun c hc => (toNat_lt_of_mem_storedName hc).2, storedName, List.length_append,
    length_encodeBytes, length_digest, List.length_cons, String.length_toList]
  omega

/-- What a disk takes for a stored name. -/
theorem isName_storedName_iff :
    Disk.IsName (String.ofList (storedName file bytes)) ↔ (storedExtension file).length ≤ 190 := by
  have hnul : ¬ Disk.hasNul (String.ofList (storedName file bytes)) := by
    rw [Disk.hasNul, String.toList_ofList, List.contains_iff_mem]
    exact fun hmem => absurd (toNat_lt_of_mem_storedName hmem).1 (by decide)
  rw [Disk.IsName, and_iff_right hnul, Disk.isTooLong, utf8ByteSize_storedName, decide_eq_true_eq]
  omega

/-! ## Storing -/

/-- A name of a directory below another one. -/
structure IsSegment (s : String) : Prop where
  plain : isPlain s
  single : '/' ∉ s.toList
  name : Disk.IsName s

/-- An upload whose path is checked, has a name of its own at the end, and is written where nothing lies. -/
structure Storable (user file : String) (bytes : ByteArray) : Prop where
  check : ∃ name, BlobPath.check (resume user file bytes) = .ok ["resumes", user, name] ∧ IsStoredName name
    ∧ name.utf8ByteSize ≤ 255
  put : ∀ (publicPath : String) (content : ByteArray), ∃ uri s,
    (BlobStore.new publicPath).put (resume user file bytes) content = (.ok uri, s)

theorem segments_resume_of_isSegment (h : IsSegment user) (file : String) (bytes : ByteArray) :
    segments (resume user file bytes) = ["resumes", user, String.ofList (storedName file bytes)] := by
  rw [segments_resume, segments, List.splitOn_eq_singleton h.single]
  simp

theorem isValid_resume (h : IsSegment user) (file : String) (bytes : ByteArray) :
    isValid (resume user file bytes) := by
  have hlong : isPlain (String.ofList (storedName file bytes)) := by
    apply isPlain_of_length
    rw [String.length_ofList, storedName, List.length_append, length_encodeBytes, length_digest]
    omega
  rw [isValid, segments_resume_of_isSegment h, List.all_cons, List.all_cons, List.all_cons, h.plain, hlong]
  decide

theorem check_resume (h : IsSegment user) (file : String) (bytes : ByteArray) :
    check (resume user file bytes) = .ok ["resumes", user, String.ofList (storedName file bytes)] := by
  rw [check_of_isValid (isValid_resume h file bytes), segments_resume_of_isSegment h]

theorem check_resume_iff (h : IsSegment user) :
    (∃ name, check (resume user file bytes) = .ok ["resumes", user, name] ∧ IsStoredName name) ↔
      storedExtension file ≠ "" := by
  rw [check_resume h, ← isStoredName_iff file bytes]
  constructor
  · rintro ⟨name, hcheck, hstored⟩
    cases hcheck
    exact hstored
  · exact fun hstored => ⟨_, rfl, hstored⟩

/-- An empty store takes an upload exactly if its disk takes the name. -/
theorem put_resume_iff (h : IsSegment user) (publicPath : String) (content : ByteArray) :
    (∃ uri s, (BlobStore.new publicPath).put (resume user file bytes) content = (.ok uri, s)) ↔
      (storedExtension file).length ≤ 190 := by
  rw [BlobStore.put_of_isValid (isValid_resume h file bytes), BlobStore.new, segments_resume_of_isSegment h]
  by_cases hname : Disk.IsName (String.ofList (storedName file bytes))
  · have hnames : ∀ name ∈ ["resumes", user, String.ofList (storedName file bytes)], Disk.IsName name :=
      List.forall_mem_cons.mpr ⟨⟨by decide, by decide⟩, by simp [h.name, hname]⟩
    rw [if_pos (Disk.write_empty (List.cons_ne_nil _ _) hnames)]
    exact iff_of_true ⟨_, _, rfl⟩ (isName_storedName_iff.mp hname)
  · rw [show ["resumes", user, _] = ["resumes", user] ++ [_] from rfl, Disk.write_of_not_isName hname]
    refine iff_of_false ?_ (isName_storedName_iff.not.mp hname)
    rintro ⟨uri, s, hput⟩
    cases hput

theorem storable_iff_length (h : IsSegment user) :
    Storable user file bytes ↔ storedExtension file ≠ "" ∧ (storedExtension file).length ≤ 190 := by
  have hsize := utf8ByteSize_storedName file bytes
  constructor
  · rintro ⟨⟨name, hcheck, hstored, -⟩, hput⟩
    exact ⟨(check_resume_iff h).mp ⟨name, hcheck, hstored⟩, (put_resume_iff h "" .empty).mp (hput "" .empty)⟩
  · rintro ⟨hne, hlength⟩
    exact ⟨⟨_, check_resume h file bytes, (isStoredName_iff file bytes).mpr hne, by omega⟩,
      fun publicPath content => (put_resume_iff h publicPath content).mpr hlength⟩

/--
An upload can be stored exactly if an extension of letters and digits, where the client's file name has one, is not
empty and has no more than 190 characters. The same bytes under the same extension have the same path.
-/
theorem resume_storable_iff (user : String) (h : IsSegment user) (file : String) (bytes : ByteArray) :
    (Storable user file bytes ↔
      ∀ e, HasExtension file e → (∀ c ∈ e.toList, c.isAlphanum) → e ≠ "" ∧ e.length ≤ 190)
    ∧ ∀ file', SameExtension file file' → resume user file bytes = resume user file' bytes := by
  refine ⟨(storable_iff_length h).trans (storedExtension_length_iff (by norm_num)), fun file' hsame => ?_⟩
  rw [resume, resume, storedExtension_congr hsame]

/-- A file with an extension in capitals that lies below a user of this name. -/
theorem resume_storable_iff_capitals :
    IsSegment "u-1" ∧ Storable "u-1" "CV.PDF" .empty ∧
      resume "u-1" "CV.PDF" .empty = resume "u-1" "other.pdf" .empty := by
  have huser : IsSegment "u-1" := ⟨by decide, by decide, by decide, by decide⟩
  obtain ⟨hstorable, hsame⟩ := resume_storable_iff "u-1" huser "CV.PDF" .empty
  have hextension : HasExtension "CV.PDF" "PDF" := extension?_eq_some_iff.mp (by decide +kernel)
  refine ⟨huser, hstorable.mpr fun e he _ => ?_, hsame "other.pdf" (by decide +kernel)⟩
  rw [he.unique hextension]
  decide

/-- As many letters as a client puts behind a dot are stored, also none. -/
theorem length_storedExtension_letters (n : Nat) :
    (storedExtension ("cv" ++ "." ++ String.ofList (List.replicate n 'a'))).length = n := by
  have hletters : ∀ c ∈ List.replicate n 'a', c = 'a' := fun c hc => (List.mem_replicate.mp hc).2
  have hslash : '/' ∉ ("cv" ++ "." ++ String.ofList (List.replicate n 'a')).toList := by
    simp [List.mem_replicate]
  have hdots : "cv" ++ "." ++ String.ofList (List.replicate n 'a') ≠ ".." := by
    intro he
    have hlength := congrArg String.length he
    rw [String.length_append, String.length_append] at hlength
    change 2 + 1 + _ = 2 at hlength
    omega
  have hextension : HasExtension ("cv" ++ "." ++ String.ofList (List.replicate n 'a'))
      (String.ofList (List.replicate n 'a')) := by
    refine ⟨[], "cv", [], ?_, nofun, hdots, by decide, ?_⟩
    · rw [segments, List.splitOn_eq_singleton hslash, List.map_singleton, String.ofList_toList, List.nil_append]
    · rw [String.toList_ofList]
      exact fun hdot => absurd (hletters _ hdot) (by decide)
  rw [storedExtension_of_hasExtension hextension, String.length_ofList, List.length_map, String.toList_ofList,
    List.length_replicate]
  intro c hc
  rw [String.toList_ofList] at hc
  rw [hletters c hc]
  rfl

/-- Behind a dot at the end of the client's name stands nothing, and a client's extension may be too long for the
disk. -/
theorem not_every_upload_storable :
    (¬ ∀ user file bytes, IsSegment user →
      ∃ name, check (resume user file bytes) = .ok ["resumes", user, name] ∧ IsStoredName name)
    ∧ ¬ ∀ user file bytes, IsSegment user →
      ∃ uri s, (BlobStore.new "/uploads").put (resume user file bytes) bytes = (.ok uri, s) := by
  have huser : IsSegment "u-1" := ⟨by decide, by decide, by decide, by decide⟩
  constructor
  · intro h
    exact (check_resume_iff huser).mp (h "u-1" "cv." .empty huser) (by decide +kernel)
  · intro h
    have hshort := (put_resume_iff huser "/uploads" .empty).mp
      (h "u-1" ("cv" ++ "." ++ String.ofList (List.replicate 191 'a')) .empty huser)
    rw [length_storedExtension_letters] at hshort
    exact absurd hshort (by decide)

end BlobPath
end JobTrail
