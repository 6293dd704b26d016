import JobTrail.Blob.Store
import Mathlib.Data.List.Induction
import Mathlib.Tactic.Common

/-!
# Trees of files

What writing and reading do to the directory tree below the root. In a tree, whatever has a place lies in
a directory and has a name that a file can have. Writing keeps a tree a tree: it adds directories, and the
file it was asked for if it succeeds, so no other file is touched and no file is ever gone. In a tree a
file is read where it lies and nowhere else.
-/

namespace JobTrail.Disk

variable {d d' : Disk} {path rest : List String} {name : String} {entry : DiskEntry} {bytes : ByteArray}

/-- A name that a file or a directory can have. -/
def IsName (name : String) : Prop := ¬ hasNul name ∧ ¬ isTooLong name

def IsTree (d : Disk) : Prop :=
  ∀ path name, d.find? (path ++ [name]) ≠ none → d.find? path = some .directory ∧ IsName name

/-- The same entries, and perhaps more directories. -/
def Extends (d d' : Disk) : Prop :=
  ∀ path, d'.find? path = d.find? path ∨ d.find? path = none ∧ d'.find? path = some .directory

def SameFiles (d d' : Disk) : Prop :=
  ∀ path bytes, d'.find? path = some (.file bytes) ↔ d.find? path = some (.file bytes)

/-! ## Entries -/

theorem find?_root (d : Disk) : d.find? [] = some .directory := rfl

theorem find?_of_ne (h : path ≠ []) (d : Disk) : d.find? path = d.entries.lookup path := by
  simp [find?, h]

theorem find?_empty : empty.find? path = if path = [] then some .directory else none := by
  simp [find?, empty]

theorem lookup_filter_ne {q : List String} (entries : List (List String × DiskEntry)) (h : q ≠ path) :
    (entries.filter (·.1 ≠ path)).lookup q = entries.lookup q := by
  induction entries with
  | nil => rfl
  | cons e rest ih =>
    obtain ⟨p, entry⟩ := e
    by_cases hp : p = path
    · subst hp
      have hne : (q == p) = false := beq_false_of_ne h
      simpa [List.lookup_cons, hne] using ih
    · simp only [ne_eq, hp, not_false_eq_true, decide_true, List.filter_cons_of_pos, List.lookup_cons]
      rw [← ih]

theorem find?_insert (d : Disk) (h : path ≠ []) (entry : DiskEntry) (q : List String) :
    (d.insert path entry).find? q = if q = path then some entry else d.find? q := by
  by_cases hroot : q = []
  · subst hroot
    rw [if_neg (Ne.symm h)]
    rfl
  · rw [find?_of_ne hroot, find?_of_ne hroot, insert, List.lookup_cons]
    by_cases hq : q = path
    · simp [hq]
    · have hne : (q == path) = false := beq_false_of_ne hq
      rw [if_neg hq, hne]
      exact lookup_filter_ne d.entries hq

/-! ## Trees -/

theorem isTree_empty : empty.IsTree := by
  intro path name h
  simp [find?_empty] at h

/-- What stands above an entry of a tree is a directory. -/
theorem IsTree.directory_above (h : d.IsTree) (hne : rest ≠ []) (hfound : d.find? (path ++ rest) ≠ none) :
    d.find? path = some .directory := by
  induction rest using List.reverseRecOn with
  | nil => exact absurd rfl hne
  | append_singleton before name ih =>
    rw [← List.append_assoc] at hfound
    have habove := (h _ _ hfound).1
    by_cases hbefore : before = []
    · rwa [hbefore, List.append_nil] at habove
    · apply ih hbefore
      rw [habove]
      simp

theorem IsTree.isName (h : d.IsTree) (hfound : d.find? (path ++ name :: rest) ≠ none) : IsName name := by
  have hsplit : path ++ name :: rest = (path ++ [name]) ++ rest := by simp
  rw [hsplit] at hfound
  refine (h path name ?_).2
  by_cases hrest : rest = []
  · rwa [hrest, List.append_nil] at hfound
  · rw [h.directory_above hrest hfound]
    simp

theorem IsTree.insert (h : d.IsTree) (habove : d.find? path = some .directory) (hname : IsName name)
    (hentry : entry = .directory ∨ d.find? (path ++ [name]) ≠ some .directory) :
    (d.insert (path ++ [name]) entry).IsTree := by
  have hne : path ++ [name] ≠ [] := by simp
  intro p n hfound
  rw [find?_insert d hne] at hfound ⊢
  by_cases hp : p ++ [n] = path ++ [name]
  · obtain ⟨rfl, hn⟩ := List.append_inj' hp rfl
    cases hn
    rw [if_neg (by simp)]
    exact ⟨habove, hname⟩
  · rw [if_neg hp] at hfound
    obtain ⟨hdirectory, hn⟩ := h p n hfound
    refine ⟨?_, hn⟩
    by_cases hsame : p = path ++ [name]
    · rw [if_pos hsame]
      rcases hentry with rfl | hother
      · rfl
      · exact absurd (hsame ▸ hdirectory) hother
    · rw [if_neg hsame]
      exact hdirectory

theorem Extends.refl (d : Disk) : d.Extends d := fun _ => .inl rfl

theorem Extends.trans {d'' : Disk} (h : d.Extends d') (h' : d'.Extends d'') : d.Extends d'' := by
  intro path
  rcases h' path with heq | ⟨hnone, hdirectory⟩
  · rw [heq]
    exact h path
  · rcases h path with heq | ⟨_, hfound⟩
    · rw [heq] at hnone
      exact .inr ⟨hnone, hdirectory⟩
    · rw [hfound] at hnone
      cases hnone

theorem Extends.sameFiles (h : d.Extends d') : d.SameFiles d' := by
  intro path bytes
  rcases h path with heq | ⟨hnone, hdirectory⟩
  · rw [heq]
  · simp [hnone, hdirectory]

theorem SameFiles.refl (d : Disk) : d.SameFiles d := fun _ _ => .rfl

/-! ## Writing -/

theorem extends_insert_directory (hne : path ≠ []) (hnone : d.find? path = none) :
    d.Extends (d.insert path .directory) := by
  intro q
  rw [find?_insert d hne]
  by_cases hq : q = path
  · subst hq
    exact .inr ⟨hnone, if_pos rfl⟩
  · exact .inl (if_neg hq)

/-- Directories are only added, and all that were asked for are there in the end if all went well. -/
theorem makeDirectories_spec (h : d.IsTree) (hpath : d.find? path = some .directory)
    (hnul : ∀ name ∈ rest, ¬ hasNul name) :
    (d.makeDirectories path rest).1.IsTree ∧ d.Extends (d.makeDirectories path rest).1 ∧
      ((d.makeDirectories path rest).2 = true →
        (d.makeDirectories path rest).1.find? (path ++ rest) = some .directory) := by
  induction rest generalizing d path with
  | nil =>
    simp only [makeDirectories, List.append_nil]
    exact ⟨h, .refl d, fun _ => hpath⟩
  | cons name rest ih =>
    obtain ⟨hname, hrest⟩ := List.forall_mem_cons.mp hnul
    have hsplit : path ++ name :: rest = (path ++ [name]) ++ rest := by simp
    simp only [makeDirectories]
    split
    · exact ⟨h, .refl d, fun hmade => by cases hmade⟩
    · rename_i hshort
      split
      · rename_i hdirectory
        rw [hsplit]
        exact ih h hdirectory hrest
      · exact ⟨h, .refl d, fun hmade => by cases hmade⟩
      · rename_i hnone
        have hnext : (d.insert (path ++ [name]) .directory).find? (path ++ [name]) = some .directory := by
          rw [find?_insert d (by simp), if_pos rfl]
        have htree : (d.insert (path ++ [name]) .directory).IsTree :=
          h.insert hpath ⟨hname, hshort⟩ (.inl rfl)
        obtain ⟨htree', hextends, hmade⟩ := ih htree hnext hrest
        rw [hsplit]
        exact ⟨htree', (extends_insert_directory (by simp) hnone).trans hextends, hmade⟩

/-- Writing keeps a tree a tree. A file that is written is where it should be, and every other file is
as before; if writing fails, every file is as before. -/
theorem write_spec (h : d.IsTree) (path : List String) (bytes : ByteArray) :
    (d.write path bytes).1.IsTree ∧
      if (d.write path bytes).2 = true then
        ∀ q found, (d.write path bytes).1.find? q = some (.file found) ↔
          if q = path then found = bytes else d.find? q = some (.file found)
      else d.SameFiles (d.write path bytes).1 := by
  rcases List.eq_nil_or_concat path with rfl | ⟨parent, name, rfl⟩
  · have hwrite : d.write [] bytes = (d, false) := by
      simp [write, makeDirectories, find?_root, hasNul, isTooLong]
    rw [hwrite]
    exact ⟨h, SameFiles.refl d⟩
  · simp only [write, List.concat_eq_append, List.dropLast_concat, List.getLast?_concat, Option.getD_some]
    split
    · exact ⟨h, SameFiles.refl d⟩
    · rename_i hparent
      have hnul : ∀ n ∈ parent, ¬ hasNul n := by simpa using hparent
      obtain ⟨htree, hextends, hmade⟩ := makeDirectories_spec h (find?_root d) hnul
      split
      · exact ⟨htree, hextends.sameFiles⟩
      · rename_i hgood
        simp only [not_or, Decidable.not_not] at hgood
        obtain ⟨hdone, hname⟩ := hgood
        have habove := hmade hdone
        rw [List.nil_append] at habove
        split
        · exact ⟨htree, hextends.sameFiles⟩
        · rename_i hfree
          refine ⟨htree.insert habove hname (.inr hfree), ?_⟩
          intro q found
          rw [find?_insert _ (by simp)]
          by_cases hq : q = parent ++ [name]
          · simp [hq, eq_comm]
          · rw [if_neg hq, if_neg hq]
            exact hextends.sameFiles q found

/-! ## Reading -/

theorem find?_of_readFrom (h : d.readFrom path rest = .file bytes) :
    d.find? (path ++ rest) = some (.file bytes) := by
  induction rest generalizing path with
  | nil =>
    rw [List.append_nil]
    unfold readFrom at h
    split at h
    · cases h
      assumption
    · cases h
    · cases h
  | cons name rest ih =>
    unfold readFrom at h
    split at h
    · cases h
    · cases h
    · split at h
      · cases h
      · have hfound := ih h
        rwa [List.append_assoc, List.singleton_append] at hfound

theorem IsTree.readFrom (h : d.IsTree) (hfound : d.find? (path ++ rest) = some (.file bytes)) :
    d.readFrom path rest = .file bytes := by
  induction rest generalizing path with
  | nil =>
    rw [List.append_nil] at hfound
    simp [Disk.readFrom, hfound]
  | cons name rest ih =>
    have hsome : d.find? (path ++ name :: rest) ≠ none := by simp [hfound]
    have hdirectory := h.directory_above (by simp) hsome
    have hname := h.isName hsome
    have hnext : d.readFrom (path ++ [name]) rest = .file bytes := ih (by simpa using hfound)
    simp [Disk.readFrom, hdirectory, hname.2, hnext]

theorem IsTree.read_eq_file_iff (h : d.IsTree) :
    d.read path = .file bytes ↔ d.find? path = some (.file bytes) := by
  unfold read
  constructor
  · intro hread
    split at hread
    · cases hread
    · exact find?_of_readFrom hread
  · intro hfound
    have hnul : ¬ path.any hasNul := by
      simp only [List.any_eq_true, not_exists, not_and]
      intro name hname
      obtain ⟨before, after, rfl⟩ := List.append_of_mem hname
      have hsome : d.find? (before ++ name :: after) ≠ none := by simp [hfound]
      exact (h.isName hsome).1
    rw [if_neg hnul]
    exact h.readFrom (by simpa using hfound)

/-- No file of a tree lies below another file. -/
theorem IsTree.eq_of_isPrefix (h : d.IsTree) {q : List String} {found : ByteArray}
    (hpath : d.find? path = some (.file bytes)) (hq : d.find? q = some (.file found)) (hbelow : path <+: q) :
    path = q := by
  obtain ⟨rest, rfl⟩ := hbelow
  by_cases hrest : rest = []
  · rw [hrest, List.append_nil]
  · have hfound : d.find? (path ++ rest) ≠ none := by simp [hq]
    have habove := h.directory_above hrest hfound
    rw [hpath] at habove
    cases habove

end JobTrail.Disk
