import JobTrail.Proofs.Blob.Disk
import JobTrail.Proofs.Blob.Paths

/-!
# The store as a map

Seen from outside, the store is a map from paths to bytes. A path is bound by the puts to it that succeed,
the last of them counts, and nothing else that is asked of the store has a part in it: not the puts to
other paths, not the puts that fail, and not the directories that they leave behind.
-/

namespace JobTrail.BlobStore

open BlobPath

variable {s s' : BlobStore} {path q uri : String} {bytes found : ByteArray} {err : BlobError}

/-! ## Valid paths -/

theorem put_of_not_isValid (h : ¬ isValid path) (bytes : ByteArray) :
    s.put path bytes = (.error (.invalidPath path), s) := by
  rw [put, check_of_not_isValid h]

theorem get_of_not_isValid (h : ¬ isValid path) : s.get path = .error (.invalidPath path) := by
  rw [get, check_of_not_isValid h]

theorem get_of_isValid (h : isValid path) :
    s.get path = match s.disk.read (segments path) with
      | .file bytes => .ok (some bytes)
      | .missing => .ok none
      | .fault => .error .io := by
  cases hread : s.disk.read (segments path) <;> simp only [get, check_of_isValid h, hread]

theorem put_of_isValid (h : isValid path) (bytes : ByteArray) :
    s.put path bytes = (if (s.disk.write (segments path) bytes).2 then .ok (s.uri path) else .error .io,
      { s with disk := (s.disk.write (segments path) bytes).1 }) := by
  rw [put, check_of_isValid h]

theorem get_eq_some_iff :
    s.get path = .ok (some bytes) ↔ isValid path ∧ s.disk.read (segments path) = .file bytes := by
  by_cases hvalid : isValid path
  · rw [get_of_isValid hvalid]
    cases s.disk.read (segments path) <;> simp [hvalid]
  · simp [get_of_not_isValid hvalid, hvalid]

/-! ## The map -/

/-- The map that a store stands for. -/
def content (s : BlobStore) (path : String) : Option ByteArray :=
  match s.get path with
  | .ok found => found
  | .error _ => none

theorem content_eq_some_iff_get : s.content path = some bytes ↔ s.get path = .ok (some bytes) := by
  unfold content
  split
  · rename_i found hget
    rw [hget, Except.ok.injEq]
  · rename_i err hget
    simp [hget]

theorem content_eq_some_iff (h : s.disk.IsTree) :
    s.content path = some bytes ↔ isValid path ∧ s.disk.find? (segments path) = some (.file bytes) := by
  rw [content_eq_some_iff_get, get_eq_some_iff, h.read_eq_file_iff]

/-! ## One access -/

/-- Nothing of the store is changed but perhaps its directories. -/
structure KeepsFiles (s s' : BlobStore) : Prop where
  publicPath : s'.publicPath = s.publicPath
  tree : s.disk.IsTree → s'.disk.IsTree
  files : s.disk.SameFiles s'.disk

theorem KeepsFiles.refl (s : BlobStore) : KeepsFiles s s := ⟨rfl, id, .refl s.disk⟩

theorem KeepsFiles.content (hkeeps : KeepsFiles s s') (h : s.disk.IsTree) (path : String) :
    s'.content path = s.content path := by
  apply Option.ext
  intro bytes
  rw [content_eq_some_iff (hkeeps.tree h), content_eq_some_iff h, hkeeps.files]

theorem put_eq_ok (h : s.put path bytes = (.ok uri, s')) :
    isValid path ∧ uri = s.uri path ∧ s'.publicPath = s.publicPath := by
  by_cases hvalid : isValid path
  · rw [put_of_isValid hvalid] at h
    split at h
    · cases h
      exact ⟨hvalid, rfl, rfl⟩
    · cases h
  · rw [put_of_not_isValid hvalid] at h
    cases h

/-- A put that fails changes no file. -/
theorem keepsFiles_of_put_error (h : s.disk.IsTree) (hput : s.put path bytes = (.error err, s')) :
    KeepsFiles s s' := by
  by_cases hvalid : isValid path
  · rw [put_of_isValid hvalid] at hput
    obtain ⟨htree, hfiles⟩ := s.disk.write_spec h (segments path) bytes
    split at hput
    · cases hput
    · rename_i hfailed
      cases hput
      rw [if_neg hfailed] at hfiles
      exact ⟨rfl, fun _ => htree, hfiles⟩
  · rw [put_of_not_isValid hvalid] at hput
    cases hput
    exact .refl s

/-- A put that succeeds binds its path and no other. -/
structure Binds (s : BlobStore) (path : String) (bytes : ByteArray) (uri : String) (s' : BlobStore) : Prop where
  uri : uri = s.uri path
  publicPath : s'.publicPath = s.publicPath
  tree : s'.disk.IsTree
  content : ∀ q, s'.content q = if q = path then some bytes else s.content q

theorem binds_of_put_ok (h : s.disk.IsTree) (hput : s.put path bytes = (.ok uri, s')) :
    Binds s path bytes uri s' := by
  by_cases hvalid : isValid path
  · rw [put_of_isValid hvalid] at hput
    obtain ⟨htree, hfiles⟩ := s.disk.write_spec h (segments path) bytes
    split at hput
    · rename_i hdone
      cases hput
      rw [if_pos hdone] at hfiles
      refine ⟨rfl, rfl, htree, ?_⟩
      intro q
      apply Option.ext
      intro found
      rw [content_eq_some_iff htree, hfiles]
      by_cases hq : q = path
      · subst hq
        simp [hvalid, eq_comm]
      · have hsegments : segments q ≠ segments path := fun he => hq (segments_injective he)
        rw [if_neg hsegments, if_neg hq, content_eq_some_iff h]
    · cases hput
  · rw [put_of_not_isValid hvalid] at hput
    cases hput

/-! ## URIs -/

theorem uri_injective (s : BlobStore) (h : s.uri path = s.uri q) : path = q := by
  apply String.toList_inj.mp
  have hchars := congrArg String.toList h
  simpa [uri] using hchars

theorem locate_uri_of_isValid (h : isValid path) (s : BlobStore) : s.locate (s.uri path) = some path :=
  ofUri?_eq_some_iff.mpr ⟨rfl, ne_empty_of_isValid h⟩

/-- A file that is stored is located from its URI. -/
theorem locate_uri (h : s.content path = some bytes) : s.locate (s.uri path) = some path := by
  obtain ⟨hvalid, -⟩ := get_eq_some_iff.mp (content_eq_some_iff_get.mp h)
  exact locate_uri_of_isValid hvalid s

/-! ## Runs -/

inductive Call where
  | put (path : String) (bytes : ByteArray)
  | get (path : String)

inductive Reply where
  | stored (x : Except BlobError String)
  | found (x : Except BlobError (Option ByteArray))

def reply (s : BlobStore) : Call → Reply × BlobStore
  | .put path bytes => (.stored (s.put path bytes).1, (s.put path bytes).2)
  | .get path => (.found (s.get path), s)

/-- The store after a run, and each call of the run with its reply. -/
def run (s : BlobStore) : List Call → List (Call × Reply) × BlobStore
  | [] => ([], s)
  | c :: rest => ((c, (s.reply c).1) :: ((s.reply c).2.run rest).1, ((s.reply c).2.run rest).2)

/-- The bytes that a call has stored, if it is a put that succeeded. -/
def stored? : Call × Reply → Option (String × ByteArray)
  | (.put path bytes, .stored (.ok _)) => some (path, bytes)
  | _ => none

def stored (log : List (Call × Reply)) : List (String × ByteArray) := log.filterMap stored?

theorem isTree_reply (h : s.disk.IsTree) (c : Call) : (s.reply c).2.disk.IsTree := by
  cases c with
  | get path => exact h
  | put path bytes =>
    cases hput : s.put path bytes with
    | mk x s' =>
      cases x with
      | ok uri => simpa [reply, hput] using (binds_of_put_ok h hput).tree
      | error err => simpa [reply, hput] using (keepsFiles_of_put_error h hput).tree h

theorem content_reply (h : s.disk.IsTree) (c : Call) (q : String) :
    (s.reply c).2.content q = ((stored? (c, (s.reply c).1)).toList.lookup q).or (s.content q) := by
  cases c with
  | get path => rfl
  | put path bytes =>
    cases hput : s.put path bytes with
    | mk x s' =>
      cases x with
      | ok uri =>
        simp only [reply, hput, stored?, Option.toList_some, (binds_of_put_ok h hput).content,
          List.lookup_cons, List.lookup_nil]
        by_cases hq : q = path
        · simp [hq]
        · simp [hq, beq_false_of_ne hq]
      | error err =>
        simp only [reply, hput, stored?, Option.toList_none, List.lookup_nil, Option.none_or]
        exact (keepsFiles_of_put_error h hput).content h q

theorem isTree_run (h : s.disk.IsTree) (calls : List Call) : (s.run calls).2.disk.IsTree := by
  induction calls generalizing s with
  | nil => exact h
  | cons c rest ih => exact ih (isTree_reply h c)

/-- After a run a path is bound by the last put to it that succeeded, or as it was before. -/
theorem content_run (h : s.disk.IsTree) (calls : List Call) (q : String) :
    (s.run calls).2.content q = ((stored (s.run calls).1).reverse.lookup q).or (s.content q) := by
  induction calls generalizing s with
  | nil => rfl
  | cons c rest ih =>
    have hstored : (stored (s.run (c :: rest)).1).reverse
        = (stored ((s.reply c).2.run rest).1).reverse ++ (stored? (c, (s.reply c).1)).toList := by
      simp only [stored, run, List.filterMap_cons]
      cases stored? (c, (s.reply c).1) <;> simp
    rw [hstored, List.lookup_append, Option.or_assoc, ← content_reply h]
    exact ih (isTree_reply h c)

theorem isTree_new (publicPath : String) : (BlobStore.new publicPath).disk.IsTree := Disk.isTree_empty

theorem content_new (publicPath path : String) : (BlobStore.new publicPath).content path = none := by
  apply Option.eq_none_iff_forall_ne_some.mpr
  intro bytes h
  obtain ⟨-, hfound⟩ := (content_eq_some_iff (isTree_new publicPath)).mp h
  simp [BlobStore.new, Disk.find?_empty, segments_ne_nil] at hfound

/-- The store is a map from the paths that are valid: what a path is bound to is what the last put to it
that succeeded has stored, a put that fails changes no file, and no bound path lies below another one. -/
theorem refines_map (publicPath : String) (calls : List Call) :
    let log := ((BlobStore.new publicPath).run calls).1
    let s := ((BlobStore.new publicPath).run calls).2
    (∀ path, path.toList.head? = some '/' ∨
        (∃ segment ∈ segments path, segment = "" ∨ segment = "." ∨ segment = "..") →
      (∀ bytes, s.put path bytes = (.error (.invalidPath path), s)) ∧
        s.get path = .error (.invalidPath path)) ∧
    (∀ path bytes, s.get path = .ok (some bytes) ↔ (stored log).reverse.lookup path = some bytes) ∧
    (∀ path bytes err s', s.put path bytes = (.error err, s') → s.disk.SameFiles s'.disk) ∧
    (∀ path q bytes found, s.get path = .ok (some bytes) → s.get q = .ok (some found) →
      segments path <+: segments q → path = q) := by
  intro log s
  have htree : s.disk.IsTree := isTree_run (isTree_new publicPath) calls
  refine ⟨?_, ?_, ?_, ?_⟩
  · intro path hpath
    have hinvalid : ¬ isValid path := by
      rcases hpath with hslash | ⟨segment, hsegment, hdots⟩
      · exact not_isValid_of_head hslash
      · intro hvalid
        obtain ⟨hne, hdot, hdots'⟩ := isValid_iff.mp hvalid segment hsegment
        rcases hdots with h | h | h
        · exact hne h
        · exact hdot h
        · exact hdots' h
    exact ⟨put_of_not_isValid hinvalid, get_of_not_isValid hinvalid⟩
  · intro path bytes
    rw [← content_eq_some_iff_get, content_run (isTree_new publicPath) calls path, content_new,
      Option.or_none]
  · intro path bytes err s' hput
    exact (keepsFiles_of_put_error htree hput).files
  · intro path q bytes found hpath hq hbelow
    obtain ⟨-, hfile⟩ := (content_eq_some_iff htree).mp (content_eq_some_iff_get.mpr hpath)
    obtain ⟨-, hother⟩ := (content_eq_some_iff htree).mp (content_eq_some_iff_get.mpr hq)
    exact segments_injective (htree.eq_of_isPrefix hfile hother hbelow)

end JobTrail.BlobStore
