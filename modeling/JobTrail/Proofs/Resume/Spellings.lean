import JobTrail.Proofs.Resume.Statements
import JobTrail.Proofs.Storage.Faults
import Mathlib.Logic.Relation

/-!
# Spellings of an id

A UUID is spelled in many ways, and the tables tell none of them from another. The file of a tailored
resume lies under the text of its id, though, as the client wrote it when the file was stored. So it is
found again under that spelling alone, or under another one where the same bytes happened to lie before.
-/

namespace JobTrail.Tailored

open Sql Storage Resume Relation

variable {e : Engine} {s s' s₀ s₁ s₂ : Storage} {a b id user missing : String} {file : ByteArray}
  {status : Option String} {row : Record} {v owner : Value}

/-! ## What the services do with files -/

theorem runs_readFile_ok_iff {path : String} :
    (readFile path missing).run.Runs e s (.ok file) s' ↔ s.blobs.get path = .ok (some file) ∧ s' = s := by
  unfold readFile
  rw [runs_andThen_iff]
  constructor
  · rintro (⟨found, s₁, hget, hfound⟩ | ⟨err, -, hx⟩)
    · obtain ⟨hget, rfl⟩ := runs_getBlob_iff.mp hget
      cases found with
      | none => cases (runs_throw_iff.mp hfound).1
      | some bytes =>
        obtain ⟨hbytes, rfl⟩ := runs_pure_iff.mp hfound
        cases hbytes
        refine ⟨?_, rfl⟩
        cases hx : s'.blobs.get path with
        | ok y =>
          rw [hx] at hget
          cases hget
          rfl
        | error err =>
          rw [hx] at hget
          cases hget
    · cases hx
  · rintro ⟨hget, rfl⟩
    refine .inl ⟨some file, s', runs_getBlob_iff.mpr ⟨?_, rfl⟩, runs_pure_iff.mpr ⟨rfl, rfl⟩⟩
    rw [hget]
    rfl

theorem runs_check_ok (h : (check id user missing).run.Runs e s (.ok row) s') : s' = s := by
  rcases runs_owned ((spells_ofList _).read? (by decide)) (run_own "tailored_resumes" ["id"] s.db) h with
    ⟨scope, row, -, -, -, rfl⟩ | ⟨err, hx, -⟩
  · rfl
  · cases hx

theorem exists_runs_check (missing : String) (hid : castUuid (.text id) = .ok v)
    (howner : castUuid (.text user) = .ok owner) {r : Record} (hr : r ∈ s.db.rows "tailored_resumes")
    (hrow : IsRow v owner r) : ∃ row, (check id user missing).run.Runs e s (.ok row) s := by
  have hmem : r ∈ (s.db.rows "tailored_resumes").filter fun r => IsRow v owner r :=
    List.mem_filter.mpr ⟨hr, decide_eq_true hrow⟩
  have hrows := List.mem_map_of_mem (f := fun r => (Columns.these ["id"]).pick r)
    ((e.arrange_perm [] _).mem_iff.mpr hmem)
  obtain ⟨row, hhead⟩ := Option.isSome_iff_exists.mp (List.isSome_head?.mpr (List.ne_nil_of_mem hrows))
  have hscope : castScope id user = .ok (v, owner) := castScope_eq_ok_iff.mpr ⟨hid, howner⟩
  exact ⟨row, Runs.owned ((spells_ofList _).read? (by decide)) (run_own "tailored_resumes" ["id"] s.db)
    hscope hhead⟩

/-- An update with a file that succeeds has put the file. -/
theorem put_of_update (h : (update a user ⟨some file, status⟩).run.Runs e s (.ok row) s') :
    ∃ uri, s.blobs.put (BlobPath.tailored a) file = (.ok uri, s'.blobs) := by
  rcases runs_andThen_iff.mp h with ⟨found, s₁, hcheck, hrest⟩ | ⟨err, -, hx⟩
  · obtain rfl := runs_check_ok hcheck
    rcases runs_andThen_iff.mp hrest with ⟨entries, s₂, hstore, hrest⟩ | ⟨err, -, hx⟩
    · rcases runs_andThen_iff.mp hstore with ⟨uri, s₃, hput, hentries⟩ | ⟨err, -, hx⟩
      · obtain ⟨hreply, rfl⟩ := runs_putBlob_iff.mp hput
        obtain ⟨-, rfl⟩ := runs_pure_iff.mp hentries
        have hblobs : s'.blobs = (s₁.blobs.put (BlobPath.tailored a) file).2 := by
          dsimp only at hrest
          split at hrest
          · cases (runs_throw_iff.mp hrest).1
          · rcases runs_andThen_iff.mp hrest with ⟨rows, s₂, hexecute, hfirst⟩ | ⟨err, -, hx⟩
            · obtain ⟨db, rfl⟩ := runs_execute_blobs hexecute
              rw [(runs_first_iff.mp hfirst).1]
            · cases hx
        cases hresult : s₁.blobs.put (BlobPath.tailored a) file with
        | mk y blobs =>
          rw [hresult] at hreply hblobs
          cases y with
          | ok uri => exact ⟨uri, by rw [hblobs]⟩
          | error err => cases hreply
      · cases hx
    · cases hx
  · cases hx

/-! ## While no file is stored for a row -/

/-- An effect by which no file is stored for the row of an id. It may fail. -/
def Spares (e : Engine) (v : Value) (s s' : Storage) : Prop :=
  ∃ r x, Responds e s r x s' ∧
    ∀ c bytes, castUuid (.text c) = .ok v → r ≠ .putBlob (BlobPath.tailored c) bytes

theorem Spares.content (h : Spares e v s s') (htree : s.blobs.disk.IsTree) :
    s'.blobs.disk.IsTree ∧ ∀ c, castUuid (.text c) = .ok v →
      s'.blobs.content (BlobPath.tailored c) = s.blobs.content (BlobPath.tailored c) := by
  obtain ⟨r, x, hresponds, hother⟩ := h
  rcases hresponds.keepsFiles_or_binds htree with hkeeps | ⟨path, bytes, uri, rfl, hbinds⟩
  · exact ⟨hkeeps.tree htree, fun c _ => hkeeps.content htree _⟩
  · refine ⟨hbinds.tree, ?_⟩
    intro c hc
    have hne : BlobPath.tailored c ≠ path := by
      rintro rfl
      exact hother c bytes hc rfl
    rw [hbinds.content, if_neg hne]

theorem content_of_spares (h : ReflTransGen (Spares e v) s s') (htree : s.blobs.disk.IsTree) :
    s'.blobs.disk.IsTree ∧ ∀ c, castUuid (.text c) = .ok v →
      s'.blobs.content (BlobPath.tailored c) = s.blobs.content (BlobPath.tailored c) := by
  induction h with
  | refl => exact ⟨htree, fun _ _ => rfl⟩
  | tail _ hstep ih =>
    obtain ⟨htree', hcontent⟩ := ih
    obtain ⟨htree'', hcontent'⟩ := hstep.content htree'
    exact ⟨htree'', fun c hc => (hcontent' c hc).trans (hcontent c hc)⟩

/-! ## Downloads -/

theorem runs_download_iff (hid : castUuid (.text id) = .ok v) (howner : castUuid (.text user) = .ok owner)
    {r : Record} (hr : r ∈ s.db.rows "tailored_resumes") (hrow : IsRow v owner r) :
    (download id user).run.Runs e s (.ok ⟨"Tailored_Resume.pdf", file⟩) s ↔
      s.blobs.get (BlobPath.tailored id) = .ok (some file) := by
  constructor
  · intro h
    rcases runs_andThen_iff.mp h with ⟨found, s₁, hcheck, hrest⟩ | ⟨err, -, hx⟩
    · obtain rfl := runs_check_ok hcheck
      rcases runs_andThen_iff.mp hrest with ⟨bytes, s₂, hread, hpure⟩ | ⟨err, -, hx⟩
      · cases (runs_pure_iff.mp hpure).1
        exact (runs_readFile_ok_iff.mp hread).1
      · cases hx
    · cases hx
  · intro hget
    obtain ⟨found, hcheck⟩ := exists_runs_check missingFile hid howner hr hrow
    exact Runs.andThen hcheck (Runs.andThen (runs_readFile_ok_iff.mpr ⟨hget, rfl⟩)
      (runs_pure_iff.mpr ⟨rfl, rfl⟩))

/-- An update with a file that succeeds has stored it under the spelling of the id that it was given. -/
theorem content_of_update (htree : s₀.blobs.disk.IsTree)
    (hupdate : (update a user ⟨some file, status⟩).run.Runs e s₀ (.ok row) s₁)
    (hspares : ReflTransGen (Spares e v) s₁ s₂) (hb : castUuid (.text b) = .ok v) :
    s₂.blobs.content (BlobPath.tailored b)
      = if b = a then some file else s₀.blobs.content (BlobPath.tailored b) := by
  obtain ⟨uri, hput⟩ := put_of_update hupdate
  have hbinds := BlobStore.binds_of_put_ok htree hput
  obtain ⟨-, hcontent⟩ := content_of_spares hspares hbinds.tree
  rw [hcontent b hb, hbinds.content]
  by_cases hab : b = a
  · simp [hab]
  · have hne : BlobPath.tailored b ≠ BlobPath.tailored a := fun he => hab (BlobPath.tailored_injective he)
    rw [if_neg hne, if_neg hab]

/-! ## An update that succeeds -/

theorem runs_move (hid : castUuid (.text id) = .ok v) (howner : castUuid (.text user) = .ok owner)
    (address : String) : ∃ statement,
      updateTemplate.compile [.text id, .text user] (.record [("fileUri", .text address)]) = .ok statement ∧
      (Service.execute statement.sql statement.params).run.Runs e s
        (.ok (((s.db.rows "tailored_resumes").filter fun r => IsRow v owner r).map
          (change [("file_uri", fun _ => .text address)])))
        (s.set "tailored_resumes" ((s.db.rows "tailored_resumes").map fun r =>
          if IsRow v owner r then change [("file_uri", fun _ => .text address)] r else r)) := by
  have hentries : patchedFields fields (.record [("fileUri", .text address)]) = [("file_uri", .text address)] :=
    rfl
  have hs : updateTemplate.compile [.text id, .text user] (.record [("fileUri", .text address)])
      = .ok ⟨updateTemplate.text ["file_uri"], [.text address, .text id, .text user]⟩ :=
    (UpdateTemplate.compile_eq_ok_iff (by decide)).mpr ⟨fun h => (nomatch hentries.symm.trans h), rfl⟩
  have hread : read? (updateTemplate.text ["file_uri"]) = some (updateTemplate.query .all ["file_uri"]) :=
    (UpdateTemplate.read?_compile readable hs).1
  have hscope : castScope id user = .ok (v, owner) := castScope_eq_ok_iff.mpr ⟨hid, howner⟩
  refine ⟨_, hs, (runs_execute_iff hread).mpr (.inl ⟨_, _, ?_, rfl, rfl⟩)⟩
  have hsets : bindSets e [.text address, .text id, .text user]
      ((updateTemplate.sets ["file_uri"]).map Equation.assignment)
        = .ok [("file_uri", fun _ => .text address)] := rfl
  have hconditions : (updateTemplate.conditions ["file_uri"].length).map Equation.condition
      = rowConditions [Value.text address].length := rfl
  have htest := bindAll_rowConditions e [.text address] id user
  rw [List.singleton_append, hscope] at htest
  rw [UpdateTemplate.query, run_update_eq hsets, hconditions, htest]
  simp only [Except.map, answerRows, Columns.pick, List.map_id', decide_eq_true_eq]
  rfl

theorem exists_runs_update (hid : castUuid (.text id) = .ok v) (howner : castUuid (.text user) = .ok owner)
    {r : Record} (hr : r ∈ s.db.rows "tailored_resumes") (hrow : IsRow v owner r) {uri : String}
    {blobs : BlobStore} (hput : s.blobs.put (BlobPath.tailored id) file = (.ok uri, blobs)) :
    ∃ row s', (update id user ⟨some file, none⟩).run.Runs e s (.ok row) s' ∧
      ∃ r ∈ s'.db.rows "tailored_resumes", IsRow v owner r := by
  obtain ⟨found, hcheck⟩ := exists_runs_check (e := e) missing hid howner hr hrow
  have hstore : (storeFile id (some file)).run.Runs e s
      (.ok [("fileUri", .text (BlobPath.tailoredDownload id))]) { s with blobs } :=
    Runs.andThen (runs_putBlob_iff.mpr (by rw [hput]; exact ⟨rfl, rfl⟩)) (runs_pure_iff.mpr ⟨rfl, rfl⟩)
  obtain ⟨statement, hs, hmove⟩ := runs_move (e := e) (s := { s with blobs }) hid howner
    (BlobPath.tailoredDownload id)
  let moved := change [("file_uri", fun _ => .text (BlobPath.tailoredDownload id))]
  have hfound : moved r ∈ ((s.db.rows "tailored_resumes").filter fun r => IsRow v owner r).map moved :=
    List.mem_map_of_mem (List.mem_filter.mpr ⟨hr, decide_eq_true hrow⟩)
  obtain ⟨row, hhead⟩ := Option.isSome_iff_exists.mp (List.isSome_head?.mpr (List.ne_nil_of_mem hfound))
  have hruns : (update id user ⟨some file, none⟩).run.Runs e s (.ok row)
      ({ s with blobs }.set "tailored_resumes" ((s.db.rows "tailored_resumes").map fun r =>
        if IsRow v owner r then moved r else r)) := by
    apply Runs.andThen hcheck
    apply Runs.andThen hstore
    simp only [Option.toList_none, List.map_nil, List.append_nil, hs]
    exact Runs.andThen hmove (runs_first_iff.mpr ⟨rfl, .inl ⟨row, hhead, rfl⟩⟩)
  refine ⟨row, _, hruns, moved r, ?_, ?_⟩
  · exact List.mem_map.mpr ⟨r, hr, if_pos hrow⟩
  · have hcolumn : ∀ c ≠ "file_uri", (moved r).column c = r.column c := by
      intro c hc
      exact column_change _ r (by simpa using Ne.symm hc)
    exact ⟨(hcolumn "id" (by decide)).trans hrow.1, (hcolumn "user_id" (by decide)).trans hrow.2⟩

/-! ## Spellings -/

/-- The file of a tailored resume is downloaded under a spelling of its id exactly if it was stored
under that spelling, or the same bytes lay there before. -/
theorem download_iff_spelling (htree : s₀.blobs.disk.IsTree)
    (hupdate : (update a user ⟨some file, status⟩).run.Runs e s₀ (.ok row) s₁)
    (hspares : ReflTransGen (Spares e v) s₁ s₂) (hb : castUuid (.text b) = .ok v)
    (howner : castUuid (.text user) = .ok owner)
    (hrow : ∃ r ∈ s₂.db.rows "tailored_resumes", IsRow v owner r) :
    (download b user).run.Runs e s₂ (.ok ⟨"Tailored_Resume.pdf", file⟩) s₂ ↔
      b = a ∨ s₀.blobs.get (BlobPath.tailored b) = .ok (some file) := by
  obtain ⟨r, hr, hrow⟩ := hrow
  rw [runs_download_iff hb howner hr hrow, ← BlobStore.content_eq_some_iff_get,
    ← BlobStore.content_eq_some_iff_get, content_of_update htree hupdate hspares hb]
  by_cases hab : b = a
  · simp [hab]
  · simp [hab]

def lowercase : String := "abcdefabcdefabcdefabcdefabcdefab"

def uppercase : String := "ABCDEFABCDEFABCDEFABCDEFABCDEFAB"

def spelled : Value := .text "abcdefab-cdef-abcd-efab-cdefabcdefab"

theorem castUuid_lowercase : castUuid (.text lowercase) = .ok spelled := by decide +kernel

theorem castUuid_uppercase : castUuid (.text uppercase) = .ok spelled := by decide +kernel

def sample : ByteArray := "%PDF".toUTF8

/-- Storage with one tailored resume and no file. -/
def tailoring : Storage where
  db := Database.empty.set "tailored_resumes" [[("id", spelled), ("user_id", spelled)]]
  blobs := .new "/uploads"
  issued := []

theorem exists_update_lowercase :
    ∃ row s, (update lowercase lowercase ⟨some sample, none⟩).run.Runs .plain tailoring (.ok row) s ∧
      ∃ r ∈ s.db.rows "tailored_resumes", IsRow spelled spelled r := by
  have hput : (tailoring.blobs.put (BlobPath.tailored lowercase) sample).1
      = .ok (tailoring.blobs.uri (BlobPath.tailored lowercase)) := by
    have hvalid : BlobPath.isValid (BlobPath.tailored lowercase) := by decide +kernel
    have hwritten : (tailoring.blobs.disk.write (BlobPath.segments (BlobPath.tailored lowercase)) sample).2 := by
      decide +kernel
    rw [BlobStore.put_of_isValid hvalid, if_pos hwritten]
  have hr : [("id", spelled), ("user_id", spelled)] ∈ tailoring.db.rows "tailored_resumes" := by
    simp [tailoring, Sql.rows_set]
  exact exists_runs_update castUuid_lowercase castUuid_lowercase hr ⟨rfl, rfl⟩ (Prod.ext hput rfl)

theorem download_iff_spelling_uppercase : ∃ row s,
    (update lowercase lowercase ⟨some sample, none⟩).run.Runs .plain tailoring (.ok row) s ∧
      ((download uppercase lowercase).run.Runs .plain s (.ok ⟨"Tailored_Resume.pdf", sample⟩) s ↔
        uppercase = lowercase ∨
          tailoring.blobs.get (BlobPath.tailored uppercase) = .ok (some sample)) := by
  obtain ⟨row, s, hupdate, hrow⟩ := exists_update_lowercase
  exact ⟨row, s, hupdate, download_iff_spelling (BlobStore.isTree_new "/uploads") hupdate .refl castUuid_uppercase
    castUuid_lowercase hrow⟩

/-- A file that is stored under an id in small letters is not found under the same id in capitals. -/
theorem download_uppercase_fails :
    ¬ ∀ (e : Engine) (a b user : String) (file : ByteArray) (status : Option String) (row : Record)
      (v owner : Value) (s₀ s₁ s₂ : Storage), s₀.blobs.disk.IsTree →
      castUuid (.text a) = .ok v → castUuid (.text b) = .ok v → castUuid (.text user) = .ok owner →
      (update a user ⟨some file, status⟩).run.Runs e s₀ (.ok row) s₁ → ReflTransGen (Spares e v) s₁ s₂ →
      (∃ r ∈ s₂.db.rows "tailored_resumes", IsRow v owner r) →
        (download b user).run.Runs e s₂ (.ok ⟨"Tailored_Resume.pdf", file⟩) s₂ := by
  intro law
  obtain ⟨row, s, hupdate, r, hr, hrow⟩ := exists_update_lowercase
  have htree : tailoring.blobs.disk.IsTree := BlobStore.isTree_new "/uploads"
  have hdownload := law .plain lowercase uppercase lowercase sample none row spelled spelled tailoring s s htree
    castUuid_lowercase castUuid_uppercase castUuid_lowercase hupdate .refl ⟨r, hr, hrow⟩
  rw [runs_download_iff castUuid_uppercase castUuid_lowercase hr hrow, ← BlobStore.content_eq_some_iff_get,
    content_of_update htree hupdate .refl castUuid_uppercase, if_neg (by decide)] at hdownload
  cases (BlobStore.content_new "/uploads" _).symm.trans hdownload

end JobTrail.Tailored
