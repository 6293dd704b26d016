import JobTrail.Proofs.Resume.Statements
import JobTrail.Proofs.Storage.Protocols
import JobTrail.Proofs.Tenancy.Ownership

/-!
# Rows and their files

What the services for resumes uphold between tables and files. The ledger notes for each id that was given
out where the file lies that its row will name: an upload stores the file first and takes the id after, so
nothing is noted before it is stored. A file that is stored stays, with the same bytes: two uploads meet
in one place only if their bytes have the same digest, and no tailored file lies where an upload does.
-/

set_option maxRecDepth 8192

namespace JobTrail.Filing

open Sql Storage BlobPath
open Tenancy (Registry)

variable {contents : Set ByteArray} {e : Engine} {place : Option String} {g g' : Stage Registry}
  {s : Storage} {db : Database} {blobs : BlobStore}

def HasFile (s : Storage) (path : String) : Prop := ∃ bytes, s.blobs.content path = some bytes

/-- What is noted for an id: nothing of interest, or the address of a file, which the row then names. -/
def Names (note : Value) (r : Record) : Prop := note = .null ∨ r.column "file_uri" = note

structure Filed (contents : Set ByteArray) (g : Stage Registry) : Prop where
  tree : g.storage.blobs.disk.IsTree
  issued : ∀ id note, g.ledger id = some note → id ∈ g.storage.issued
  /-- Uploaded bytes lie where their digest says. -/
  addressed : ∀ user file, ∀ bytes ∈ contents, ∀ found,
    g.storage.blobs.content (resume user file bytes) = some found → found = bytes
  stored : ∀ id path, g.ledger id = some (.text (g.storage.blobs.uri path)) → HasFile g.storage path
  resumes : ∀ r ∈ g.storage.db.rows "resumes", ∃ note, g.ledger (r.column "id") = some note ∧ Names note r
  tailored : ∀ r ∈ g.storage.db.rows "tailored_resumes", ∀ id,
    r.column "file_uri" = .text (tailoredDownload id) → HasFile g.storage (BlobPath.tailored id)

structure Later (g g' : Stage Registry) : Prop where
  ledger : g.ledger.Grows g'.ledger
  publicPath : g'.storage.blobs.publicPath = g.storage.blobs.publicPath
  files : ∀ path, HasFile g.storage path → HasFile g'.storage path

theorem Later.refl (g : Stage Registry) : Later g g := ⟨.refl _, rfl, fun _ h => h⟩

theorem Later.trans {g'' : Stage Registry} (h : Later g g') (h' : Later g' g'') : Later g g'' where
  ledger := h.ledger.trans h'.ledger
  publicPath := h'.publicPath.trans h.publicPath
  files path hfile := h'.files path (h.files path hfile)

theorem Later.uri (h : Later g g') (path : String) : g'.storage.blobs.uri path = g.storage.blobs.uri path := by
  rw [BlobStore.uri, BlobStore.uri, h.publicPath]

def protocol (contents : Set ByteArray) : Protocol Registry where
  Holds := Filed contents
  Later := Later
  refl := .refl
  trans := .trans

/-- A call that has a place for its file notes its address for every resume that it adds. -/
def Adds (place : Option String) (g g' : Stage Registry) : Prop :=
  ∀ path ∈ place, ∀ r, g'.storage.db.rows "resumes" = g.storage.db.rows "resumes" ++ [r] →
    g'.ledger (r.column "id") = some (.text (g'.storage.blobs.uri path))

theorem adds_of_length (h : (g'.storage.db.rows "resumes").length ≤ (g.storage.db.rows "resumes").length) :
    Adds place g g' := by
  intro path _ r hr
  rw [hr, List.length_append, List.length_singleton] at h
  omega

theorem adds_of_db_eq (h : g'.storage.db = g.storage.db) : Adds place g g' := by
  apply adds_of_length
  rw [h]

/-- A service may be a part of a call that has this place for its file. -/
def Orderly {α : Type} (contents : Set ByteArray) (e : Engine) (place : Option String) (m : Service α)
    (g : Stage Registry) : Prop := (protocol contents).Performs e (Adds place) (fun _ _ => True) m g

theorem Orderly.bind {α β : Type} {m : Service α} {f : α → Service β} (hm : Orderly contents e place m g)
    (hf : ∀ a g₁, Later g g₁ → Orderly contents e place (f a) g₁) : Orderly contents e place (m >>= f) g :=
  Protocol.Performs.bind hm fun a g₁ hlater _ => hf a g₁ hlater

/-! ## Files -/

/-- Bytes are put where no other upload of the run lies. -/
def FitsAt (contents : Set ByteArray) (path : String) (bytes : ByteArray) : Prop :=
  ∀ user file, ∀ uploaded ∈ contents, path = resume user file uploaded → bytes = uploaded

theorem fitsAt_resume (hdigest : contents.InjOn digest) {bytes : ByteArray} (hbytes : bytes ∈ contents)
    (user file : String) : FitsAt contents (resume user file bytes) bytes := by
  intro user' file' uploaded huploaded h
  exact hdigest hbytes huploaded (digest_of_resume h)

theorem fitsAt_tailored (id : String) (bytes : ByteArray) : FitsAt contents (BlobPath.tailored id) bytes := by
  intro user file uploaded _ h
  exact absurd h.symm (resume_ne_tailored user file id uploaded)

theorem later_of_content (hpublic : blobs.publicPath = g.storage.blobs.publicPath)
    (h : ∀ path, HasFile g.storage path → HasFile { g.storage with blobs } path) :
    Later g ⟨{ g.storage with blobs }, g.ledger⟩ := ⟨.refl _, hpublic, h⟩

/-- Storage has other directories or more files, and all that was there is there. -/
theorem Filed.with_blobs (h : Filed contents g) (htree : blobs.disk.IsTree)
    (hlater : Later g ⟨{ g.storage with blobs }, g.ledger⟩)
    (haddressed : ∀ user file, ∀ bytes ∈ contents, ∀ found,
      blobs.content (resume user file bytes) = some found → found = bytes) :
    Filed contents ⟨{ g.storage with blobs }, g.ledger⟩ where
  tree := htree
  issued := h.issued
  addressed := haddressed
  stored id path hid := by
    rw [hlater.uri] at hid
    exact hlater.files path (h.stored id path hid)
  resumes := h.resumes
  tailored r hr id hid := hlater.files _ (h.tailored r hr id hid)

theorem performs_putBlob {path : String} {bytes : ByteArray} (hfits : FitsAt contents path bytes) :
    (protocol contents).Performs e (Adds place)
      (fun uri g => uri = g.storage.blobs.uri path ∧ HasFile g.storage path) (Service.putBlob path bytes) g := by
  refine Protocol.performs_effect (r := .putBlob path bytes) ?_
  intro g₁ x s _ hfiled hx
  obtain ⟨blobs, rfl, ⟨uri, rfl, hbinds⟩ | ⟨⟨err, rfl⟩, hkeeps⟩⟩ := hx.put hfiled.tree
  · have hlater : Later g₁ ⟨{ g₁.storage with blobs }, g₁.ledger⟩ := by
      apply later_of_content hbinds.publicPath
      rintro q ⟨found, hfound⟩
      by_cases hq : q = path
      · exact ⟨bytes, by rw [hbinds.content, if_pos hq]⟩
      · exact ⟨found, by rw [hbinds.content, if_neg hq, hfound]⟩
    have haddressed : ∀ user file, ∀ uploaded ∈ contents, ∀ found,
        blobs.content (resume user file uploaded) = some found → found = uploaded := by
      intro user file uploaded huploaded found hfound
      rw [hbinds.content] at hfound
      split at hfound
      · rename_i hpath
        cases hfound
        exact hfits user file uploaded huploaded hpath.symm
      · exact hfiled.addressed user file uploaded huploaded found hfound
    refine ⟨g₁.ledger, hlater, hfiled.with_blobs hbinds.tree hlater haddressed, adds_of_db_eq rfl, ?_⟩
    rintro _ ⟨⟩
    refine ⟨?_, bytes, ?_⟩
    · rw [hlater.uri, hbinds.uri]
    · rw [hbinds.content, if_pos rfl]
  · have hcontent := hkeeps.content hfiled.tree
    have hlater : Later g₁ ⟨{ g₁.storage with blobs }, g₁.ledger⟩ := by
      apply later_of_content hkeeps.publicPath
      rintro q ⟨found, hfound⟩
      exact ⟨found, by rw [hcontent, hfound]⟩
    refine ⟨g₁.ledger, hlater, hfiled.with_blobs (hkeeps.tree hfiled.tree) hlater ?_, adds_of_db_eq rfl, ?_⟩
    · intro user file uploaded huploaded found hfound
      rw [hcontent] at hfound
      exact hfiled.addressed user file uploaded huploaded found hfound
    · rintro _ ⟨⟩

/-! ## Ids -/

/-- A new id is given out, and noted with the address of a file only if the file is stored. -/
theorem performs_freshId {note : Value}
    (hnote : ∀ path, note = .text (g.storage.blobs.uri path) → HasFile g.storage path) :
    (protocol contents).Performs e (Adds place) (fun id g => g.ledger.Has note id) Service.freshId g := by
  refine Protocol.performs_effect (r := .freshId) ?_
  rintro g₁ x s hlater hfiled (hserves | ⟨hfails, -⟩)
  · cases hserves with
    | @freshId id v hcast hnew =>
      have hfree : ∀ note, g₁.ledger v ≠ some note := fun note h => hnew (hfiled.issued v note h)
      have hgrows := Registry.grows_give hfree note
      refine ⟨g₁.ledger.give v note, ⟨hgrows, rfl, fun _ h => h⟩, ?_, adds_of_db_eq rfl, ?_⟩
      · refine ⟨hfiled.tree, ?_, hfiled.addressed, ?_, ?_, hfiled.tailored⟩
        · intro id' note' h
          rcases Registry.give_eq_some h with ⟨rfl, -⟩ | h
          · exact List.mem_cons_self
          · exact List.mem_cons_of_mem _ (hfiled.issued id' note' h)
        · intro id' path h
          rcases Registry.give_eq_some h with ⟨-, h⟩ | h
          · exact hlater.files path (hnote path (h.symm.trans (congrArg _ (hlater.uri path))))
          · exact hfiled.stored id' path h
        · intro r hr
          obtain ⟨note', h, hnames⟩ := hfiled.resumes r hr
          exact ⟨note', hgrows _ _ h, hnames⟩
      · rintro _ ⟨⟩ w hw
        cases hcast.symm.trans hw
        exact if_pos rfl
  · cases hfails

/-! ## Statements -/

def fileTables : List String := ["resumes", "tailored_resumes"]

/-- No row for a file is added, and each has come from one of the same id that names the same file. -/
structure KeepsRows (db db' : Database) : Prop where
  length : ∀ table ∈ fileTables, (db'.rows table).length ≤ (db.rows table).length
  origin : ∀ table ∈ fileTables, ∀ r' ∈ db'.rows table,
    ∃ r ∈ db.rows table, r'.column "id" = r.column "id" ∧ r'.column "file_uri" = r.column "file_uri"

theorem KeepsRows.refl (db : Database) : KeepsRows db db :=
  ⟨fun _ _ => Nat.le_refl _, fun _ _ r hr => ⟨r, hr, rfl, rfl⟩⟩

/-- A query that neither adds a row for a file nor changes which file it names. -/
def keepsRows : Query → Bool
  | .select .. => true
  | .insert table .. => table ∉ fileTables
  | .update table assignments _ _ =>
    table ∉ fileTables || "id" ∉ assignments.map (·.1) && "file_uri" ∉ assignments.map (·.1)
  | .delete .. => true

theorem keepsRows_set {rows : List Record} {table : String}
    (h : table ∈ fileTables → rows.length ≤ (db.rows table).length ∧ ∀ r' ∈ rows, ∃ r ∈ db.rows table,
      r'.column "id" = r.column "id" ∧ r'.column "file_uri" = r.column "file_uri") :
    KeepsRows db (db.set table rows) := by
  constructor
  · intro t ht
    rw [Sql.rows_set]
    split
    · rename_i he
      subst he
      exact (h ht).1
    · exact Nat.le_refl _
  · intro t ht r' hr'
    rw [Sql.rows_set] at hr'
    split at hr'
    · rename_i he
      subst he
      exact (h ht).2 r' hr'
    · exact ⟨r', hr', rfl, rfl⟩

theorem keepsRows_run {q : Query} (hq : keepsRows q = true) {params : List Value} {rows : List Record}
    {db' : Database} (hrun : q.run e params db = .ok (rows, db')) : KeepsRows db db' := by
  cases q with
  | select =>
    obtain ⟨rfl, -⟩ := run_select hrun
    exact .refl db'
  | insert table columns values skipPresent returning =>
    obtain ⟨fs, -, ⟨-, rfl, -⟩ | ⟨rfl, -⟩⟩ := run_insert hrun
    · exact .refl db'
    · apply keepsRows_set
      intro ht
      exact absurd ht (of_decide_eq_true hq)
  | update table assignments conditions returning =>
    obtain ⟨sets, test, hsets, -, rfl, -⟩ := run_update hrun
    apply keepsRows_set
    intro ht
    refine ⟨by rw [List.length_map], ?_⟩
    intro r' hr'
    obtain ⟨r, hr, rfl⟩ := List.mem_map.mp hr'
    refine ⟨r, hr, ?_⟩
    have hcolumns : "id" ∉ assignments.map (·.1) ∧ "file_uri" ∉ assignments.map (·.1) := by
      simpa [keepsRows, ht] using hq
    split
    · exact ⟨column_change_of_bindSets hsets hcolumns.1 r, column_change_of_bindSets hsets hcolumns.2 r⟩
    · exact ⟨rfl, rfl⟩
  | delete table conditions returning =>
    obtain ⟨test, -, rfl, -⟩ := run_delete hrun
    apply keepsRows_set
    intro _
    refine ⟨List.length_filter_le .., ?_⟩
    intro r' hr'
    exact ⟨r', (List.mem_filter.mp hr').1, rfl, rfl⟩

theorem later_with_db (g : Stage Registry) (db : Database) : Later g ⟨{ g.storage with db }, g.ledger⟩ :=
  ⟨.refl _, rfl, fun _ h => h⟩

theorem Filed.with_db (h : Filed contents g)
    (hresumes : ∀ r ∈ db.rows "resumes", ∃ note, g.ledger (r.column "id") = some note ∧ Names note r)
    (htailored : ∀ r ∈ db.rows "tailored_resumes", ∀ id,
      r.column "file_uri" = .text (tailoredDownload id) → HasFile g.storage (BlobPath.tailored id)) :
    Filed contents ⟨{ g.storage with db }, g.ledger⟩ :=
  ⟨h.tree, h.issued, h.addressed, h.stored, hresumes, htailored⟩

theorem Filed.keepsRows (h : Filed contents g) (hkeeps : KeepsRows g.storage.db db) :
    Filed contents ⟨{ g.storage with db }, g.ledger⟩ ∧ Adds place g ⟨{ g.storage with db }, g.ledger⟩ := by
  refine ⟨h.with_db ?_ ?_, adds_of_length (hkeeps.length "resumes" (by decide))⟩
  · intro r' hr'
    obtain ⟨r, hr, hid, huri⟩ := hkeeps.origin "resumes" (by decide) r' hr'
    obtain ⟨note, hnote, hnames⟩ := h.resumes r hr
    exact ⟨note, by rw [hid, hnote], by rwa [Names, huri]⟩
  · intro r' hr' id hid
    obtain ⟨r, hr, -, huri⟩ := hkeeps.origin "tailored_resumes" (by decide) r' hr'
    exact h.tailored r hr id (huri.symm.trans hid)

/-- A statement of which every outcome leaves the rows and their files in order. -/
theorem orderly_statement {sql : String} {q : Query} {params : List Value} (hread : read? sql = some q)
    (h : ∀ g₁ rows db, Later g g₁ → Filed contents g₁ → q.run e params g₁.storage.db = .ok (rows, db) →
      Filed contents ⟨{ g₁.storage with db }, g₁.ledger⟩ ∧ Adds place g₁ ⟨{ g₁.storage with db }, g₁.ledger⟩) :
    Orderly contents e place (Service.execute sql params) g := by
  apply Protocol.performs_execute hread
  · intro g₁ _ _
    exact adds_of_db_eq rfl
  · intro g₁ rows db hlater hfiled hrun
    obtain ⟨hfiled', hadds⟩ := h g₁ rows db hlater hfiled hrun
    exact ⟨g₁.ledger, later_with_db g₁ db, hfiled', hadds, trivial⟩

theorem orderly_keeping {sql : String} {cs : List Char} (htext : Spells sql cs)
    (hq : spellsQuery keepsRows cs = true) (params : List Value) :
    Orderly contents e place (Service.execute sql params) g := by
  obtain ⟨q, hread, hkeeps⟩ := htext.exists_read? hq
  apply orderly_statement hread
  intro g₁ rows db _ hfiled hrun
  exact hfiled.keepsRows (keepsRows_run hkeeps hrun)

/-! ## New rows -/

/-- What is noted for a resume that a call adds under a URI. -/
structure Noting (place : Option String) (fileUri : String) (note : Value) (g : Stage Registry) : Prop where
  names : note = .null ∨ note = .text fileUri
  stored : ∀ path, note = .text (g.storage.blobs.uri path) → HasFile g.storage path
  placed : ∀ path ∈ place, note = .text (g.storage.blobs.uri path)

theorem Noting.later {fileUri : String} {note : Value} (h : Noting place fileUri note g) (hlater : Later g g') :
    Noting place fileUri note g' := by
  refine ⟨h.names, ?_, ?_⟩
  · intro path hpath
    rw [hlater.uri] at hpath
    exact hlater.files path (h.stored path hpath)
  · intro path hpath
    rw [hlater.uri]
    exact h.placed path hpath

theorem orderly_add {user : String} {draft : Resume.Draft} {id note : Value} (hid : g.ledger.Has note id)
    (hnote : Noting place draft.fileUri note g) :
    Orderly contents e place
      (Service.execute
        ("INSERT INTO resumes (id, user_id, name, file_name, file_uri, is_primary) "
         ++ "VALUES ($1::uuid, $2::uuid, $3, $4, $5, $6) "
         ++ "RETURNING *")
        [id, .text user, .text draft.name, .text draft.fileName, .text draft.fileUri, .bool draft.primary]) g := by
  apply orderly_statement Resume.read?_addition
  intro g₁ rows db hlater hfiled hrun
  obtain ⟨row, hrow, huri, rfl⟩ := Resume.run_addition hrun
  have hledger : g₁.ledger (row.column "id") = some note := hlater.ledger _ _ (hid _ hrow)
  refine ⟨hfiled.with_db ?_ ?_, ?_⟩
  · intro r hr
    rw [Sql.rows_set, if_pos rfl] at hr
    rcases List.mem_append.mp hr with hr | hr
    · exact hfiled.resumes r hr
    · rw [List.mem_singleton.mp hr]
      refine ⟨note, hledger, ?_⟩
      rcases hnote.names with hnull | htext
      · exact .inl hnull
      · exact .inr (huri.trans htext.symm)
  · exact hfiled.tailored
  · intro path hpath r hr
    dsimp only at hr
    rw [Sql.rows_set, if_pos rfl, List.append_cancel_left_eq, List.cons.injEq] at hr
    rw [← hr.1, hledger, (hnote.later hlater).placed path hpath]

/-- A new version of a resume names no file. -/
theorem orderly_request (hdefault : (e.defaults "tailored_resumes").column "file_uri" = .null)
    (params : List Value) :
    Orderly contents e place
      (Service.execute
        ("INSERT INTO tailored_resumes "
         ++ "(id, original_resume_id, user_id, job_description, company_name, position_title, processing_status) "
         ++ "VALUES ($1::uuid, $2::uuid, $3::uuid, $4, $5, $6, 'processing') "
         ++ "RETURNING *") params) g := by
  let columns := ["id", "original_resume_id", "user_id", "job_description", "company_name", "position_title",
    "processing_status"]
  have hread : read? ("INSERT INTO tailored_resumes "
      ++ "(id, original_resume_id, user_id, job_description, company_name, position_title, processing_status) "
      ++ "VALUES ($1::uuid, $2::uuid, $3::uuid, $4, $5, $6, 'processing') " ++ "RETURNING *")
      = some (.insert "tailored_resumes" columns
        [.parameter 0 (some "uuid"), .parameter 1 (some "uuid"), .parameter 2 (some "uuid"), .parameter 3 none,
          .parameter 4 none, .parameter 5 none, .constant (.text "processing")] false (some .all)) :=
    ((((spells_ofList _).append (spells_ofList _)).append (spells_ofList _)).append (spells_ofList _)).read?
      (by decide)
  apply orderly_statement hread
  intro g₁ rows db _ hfiled hrun
  obtain ⟨fs, -, ⟨hskip, -⟩ | ⟨rfl, -⟩⟩ := run_insert hrun
  · cases hskip
  refine ⟨hfiled.with_db hfiled.resumes ?_, adds_of_length (Nat.le_refl _)⟩
  intro r hr id hid
  rw [Sql.rows_set, if_pos rfl] at hr
  rcases List.mem_append.mp hr with hr | hr
  · exact hfiled.tailored r hr id hid
  · have hleft : "file_uri" ∉ columns := by decide
    rw [List.mem_singleton.mp hr, column_newRow_of_notMem e _ _ hleft, hdefault] at hid
    cases hid

/-! ## Patches -/

theorem orderly_resume_patch {scope : List Value} {patch : Value} {statement : Statement}
    (hs : Resume.updateTemplate.compile scope patch = .ok statement) :
    Orderly contents e place (Service.execute statement.sql statement.params) g := by
  obtain ⟨hread, -, hfields⟩ := UpdateTemplate.read?_compile (Patchable.readable .resume) hs
  have hother : ∀ c ∉ Resume.fields, c ∉ (patchedFields Resume.fields patch).map (·.1) := by
    intro c hc hmem
    exact hc (hfields c hmem)
  apply orderly_statement hread
  intro g₁ rows db _ hfiled hrun
  apply hfiled.keepsRows
  apply keepsRows_run _ hrun
  simp only [UpdateTemplate.query, keepsRows, UpdateTemplate.map_fst_sets]
  simp [hother "id" (by decide), hother "file_uri" (by decide), Patchable.template, Resume.updateTemplate]

theorem orderly_tailored_patch {scope : List Value} {patch : Value} {statement : Statement}
    (hs : Tailored.updateTemplate.compile scope patch = .ok statement)
    (hfile : ∀ id, ("file_uri", .text (tailoredDownload id)) ∈ patchedFields Tailored.fields patch →
      HasFile g.storage (BlobPath.tailored id)) :
    Orderly contents e place (Service.execute statement.sql statement.params) g := by
  obtain ⟨hread, -⟩ := UpdateTemplate.read?_compile Tailored.readable hs
  apply orderly_statement hread
  intro g₁ rows db hlater hfiled hrun
  obtain ⟨hothers, hpatched⟩ := UpdateTemplate.rows_patched Tailored.readable hs hrun
  have hresumes : db.rows "resumes" = g₁.storage.db.rows "resumes" := hothers "resumes" (by decide)
  refine ⟨hfiled.with_db ?_ ?_, adds_of_length (Nat.le_of_eq (congrArg List.length hresumes))⟩
  · rw [hresumes]
    exact hfiled.resumes
  · intro r' hr' id hid
    obtain ⟨r, hr, hcolumns⟩ := hpatched r' hr'
    rcases hcolumns "file_uri" with hsame | ⟨v, hmem, hcast⟩
    · exact hfiled.tailored r hr id (hsame.symm.trans hid)
    · rw [hid] at hcast
      cases hcast
      exact hlater.files _ (hfile id hmem)

end JobTrail.Filing
