import JobTrail.Proofs.Blob.Store
import JobTrail.Proofs.Resume.Statements
import JobTrail.Proofs.Service.Composition
import JobTrail.Proofs.Text.Splitting

/-!
# Locations of blobs

Where a path leads on disk and what URI leads to it. A path that passes the check is joined to the root as
its segments, each of which is a name, so no path leads out of the root. A URI leads to a path exactly if it
was made of that path. A download reads what the URI of a row leads to and nothing else, whatever text stands
there.
-/

set_option maxRecDepth 8192

namespace JobTrail

namespace BlobPath

variable {root path : String}

/-! ## Paths below a root -/

/-- A path below a directory, as text. A path that starts at the root of the file system stays as it is. -/
def join (root path : String) : String :=
  if path.toList.head? = some '/' then path
  else if root = "" ∨ root.toList.getLast? = some '/' then root ++ path
  else root ++ "/" ++ path

/-- The file that a store with a root opens for a path. -/
def resolve (root path : String) : Except BlobError String := (check path).map fun _ => join root path

theorem segments_empty : segments "" = [""] := rfl

theorem segments_append_slash (a b : String) : segments (a ++ "/" ++ b) = segments a ++ segments b := by
  have hchars : (a ++ "/" ++ b).toList = a.toList ++ '/' :: b.toList := by simp
  rw [segments, hchars, List.splitOn_append_cons_self, List.map_append, segments, segments]

/-- What stands in front of a path does not depend on what comes after the first slash. -/
theorem front_append {a b c : List String} (ha : a ≠ []) (hb : b ≠ []) (hc : c ≠ []) :
    front (a ++ b) = front (a ++ c) := by
  obtain ⟨first, rest, rfl⟩ := List.exists_cons_of_ne_nil ha
  simp [front, hb, hc]

theorem front_append_of_ne {a : List String} (ha : a ≠ []) (hne : a ≠ [""]) (b : List String) :
    front (a ++ b) = front a := by
  obtain ⟨first, rest, rfl⟩ := List.exists_cons_of_ne_nil ha
  by_cases hrest : rest = []
  · subst hrest
    have hfirst : first ≠ "" := fun he => hne (by rw [he])
    simp [front, hfirst]
  · simp [front, hrest]

/-- A valid path is joined to the root part by part. -/
theorem components_join (h : isValid path) (root : String) :
    components (join root path) = components root ++ (segments path).map .normal := by
  have hrelative : path.toList.head? ≠ some '/' := fun hhead => not_isValid_of_head hhead h
  have hrest := filterMap_ofSegment?_of_isValid h
  rw [join, if_neg hrelative]
  by_cases hempty : root = ""
  · subst hempty
    rw [if_pos (.inl rfl), String.empty_append, components_of_isValid h]
    rfl
  by_cases hslash : root.toList.getLast? = some '/'
  · obtain ⟨before, hbefore⟩ := List.getLast?_eq_some_iff.mp hslash
    have hroot : root = String.ofList before ++ "/" ++ "" := by
      apply String.toList_inj.mp
      simp [hbefore]
    have htarget : root ++ path = String.ofList before ++ "/" ++ path := by
      rw [hroot, String.append_empty]
    rw [if_pos (.inr hslash), htarget, components, segments_append_slash, List.filterMap_append, hrest]
    rw [hroot, components, segments_append_slash, List.filterMap_append, segments_empty,
      front_append (segments_ne_nil _) (segments_ne_nil path) (List.cons_ne_nil "" [])]
    simp [Component.ofSegment?]
  · have hsegments : segments root ≠ [""] := fun he => hempty (segments_injective (he.trans segments_empty.symm))
    rw [if_neg (not_or.mpr ⟨hempty, hslash⟩), components, segments_append_slash, List.filterMap_append, hrest,
      front_append_of_ne (segments_ne_nil root) hsegments, ← List.append_assoc, components]

/-! ## Public paths -/

/-- A text is what is left without the slashes at its end, and then these slashes. -/
theorem exists_slashes (text : String) : ∃ n,
    text = trimSlashes text ++ String.ofList (List.replicate n '/') ∧
      (trimSlashes text).toList.getLast? ≠ some '/' := by
  let isSlash : Char → Bool := fun c => c = '/'
  obtain ⟨n, hchars⟩ := exists_trimmed (fun c (hc : isSlash c) => of_decide_eq_true hc) text.toList
  refine ⟨n, ?_, ?_⟩
  · apply String.toList_inj.mp
    rw [String.toList_append, String.toList_ofList, trimSlashes, String.toList_ofList]
    exact hchars
  · rw [trimSlashes, String.toList_ofList, List.getLast?_reverse]
    intro hhead
    have hnot := List.head?_dropWhile_not isSlash text.toList.reverse
    rw [show (text.toList.reverse.dropWhile isSlash).head? = some '/' from hhead] at hnot
    simp [isSlash] at hnot

/-- A file below a directory: its parts are those of the directory, and then names. -/
def IsBelow (root target : String) : Prop := ∃ names : List String, names ≠ [] ∧
  (∀ name ∈ names, name ≠ "" ∧ name ≠ "." ∧ name ≠ "..") ∧
    components target = components root ++ names.map .normal

theorem isBelow_of_resolve {target : String} (h : resolve root path = .ok target) : IsBelow root target := by
  obtain ⟨names, hcheck, rfl⟩ := map_eq_ok.mp h
  obtain ⟨hvalid, rfl⟩ := check_eq_ok_iff.mp hcheck
  exact ⟨segments path, segments_ne_nil path, isValid_iff.mp hvalid, components_join hvalid root⟩

end BlobPath

/-! ## Downloads -/

/-- The local store opens a file for an effect. Nothing is known here of what a look into the public tree
opens. -/
def Effect.Opens (root target : String) : Effect → Prop
  | .putBlob path _ | .getBlob path => BlobPath.resolve root path = .ok target
  | .lookUp _ => True
  | .freshId | .freshSalt | .execute _ | .locateBlob _ => False

namespace Resume

open Sql Storage Service

variable {e : Engine} {s s' : Storage} {id user : String} {file : Download}

theorem read?_download :
    read? "SELECT file_name, file_uri FROM resumes WHERE id = $1::uuid AND user_id = $2::uuid"
      = some (.select (.these ["file_name", "file_uri"]) "resumes" none (rowConditions 0) []) :=
  (spells_ofList _).read? (by decide)

/-- The row that a download looks at is one of the user's. -/
theorem runs_location {missing : String} {row : Record}
    (hruns : (owned "SELECT file_name, file_uri FROM resumes WHERE id = $1::uuid AND user_id = $2::uuid"
      id user missing).run.Runs e s (.ok row) s') :
    s' = s ∧ ∃ r ∈ s.db.rows "resumes", castUuid (.text user) = .ok (r.column "user_id") ∧
      row.column "file_uri" = r.column "file_uri" := by
  rcases runs_owned read?_download (run_own "resumes" ["file_name", "file_uri"] s.db) hruns with
    ⟨scope, picked, hscope, hhead, hpicked, rfl⟩ | ⟨err, hx, -⟩
  · cases hpicked
    obtain ⟨r, hr, rfl⟩ := List.mem_map.mp (List.mem_of_head? hhead)
    obtain ⟨hmem, hown⟩ := List.mem_filter.mp ((e.arrange_perm _ _).mem_iff.mp hr)
    obtain ⟨-, howner⟩ := of_decide_eq_true hown
    refine ⟨rfl, r, hmem, ?_, Record.column_map _ _ (by simp)⟩
    rw [howner]
    exact (castScope_eq_ok_iff.mp hscope).2
  · cases hx

theorem column_eq_text {row : Record} {name text : String} (h : (row.get? name).bind Value.text? = some text) :
    row.column name = .text text := by
  obtain ⟨v, hv, htext⟩ := Option.bind_eq_some_iff.mp h
  rw [Record.column_eq_of_get? hv]
  cases v <;> cases htext
  rfl

/-- What a download serves is the file that the URI in a row of the user's leads to. -/
theorem runs_download (hruns : (download id user).run.Runs e s (.ok file) s') :
    s' = s ∧ ∃ r ∈ s.db.rows "resumes", ∃ uri path names, castUuid (.text user) = .ok (r.column "user_id") ∧
      r.column "file_uri" = .text uri ∧ s.blobs.locate uri = some path ∧ BlobPath.check path = .ok names ∧
      s.blobs.disk.read names = .file file.bytes := by
  unfold download at hruns
  obtain ⟨row, s₁, hrow, hrest⟩ := runs_andThen_eq_ok_iff.mp hruns
  obtain ⟨uri, s₂, huri, hrest₂⟩ := runs_andThen_eq_ok_iff.mp hrest
  obtain ⟨found, s₃, hlocate, hrest₃⟩ := runs_andThen_eq_ok_iff.mp hrest₂
  obtain ⟨path, s₄, hpath, hrest₄⟩ := runs_andThen_eq_ok_iff.mp hrest₃
  obtain ⟨bytes, s₅, hread, hrest₅⟩ := runs_andThen_eq_ok_iff.mp hrest₄
  obtain ⟨content, s₆, hget, hbytes⟩ := runs_andThen_eq_ok_iff.mp hread
  obtain ⟨rfl, r, hmem, howner, hcolumn⟩ := runs_location hrow
  obtain ⟨htext, rfl⟩ := runs_orMissing_eq_ok_iff.mp huri
  obtain ⟨hfound, rfl⟩ := runs_locateBlob_iff.mp hlocate
  obtain ⟨rfl, rfl⟩ := runs_orMissing_eq_ok_iff.mp hpath
  obtain ⟨hcontent, rfl⟩ := runs_getBlob_iff.mp hget
  obtain ⟨rfl, rfl⟩ := runs_orMissing_eq_ok_iff.mp hbytes
  obtain ⟨hfile, rfl⟩ := runs_pure_iff.mp hrest₅
  cases hfile
  rw [column_eq_text htext] at hcolumn
  cases hstored : s'.blobs.get path with
  | error err =>
    rw [hstored] at hcontent
    cases hcontent
  | ok content =>
    rw [hstored] at hcontent
    cases hcontent
    obtain ⟨hvalid, hfile⟩ := BlobStore.get_eq_some_iff.mp hstored
    exact ⟨rfl, r, hmem, uri, path, _, howner, hcolumn.symm, (Except.ok.inj hfound).symm,
      BlobPath.check_of_isValid hvalid, hfile⟩

/-- Every file that a download opens lies below the root of the store. -/
theorem opens_download (root : String) (id user : String) :
    Asks (fun r => ∀ target, r.Opens root target → BlobPath.IsBelow root target) (download id user) := by
  have hexecute : ∀ s target, (Effect.execute s).Opens root target → BlobPath.IsBelow root target :=
    fun _ _ h => nomatch h
  have hlocate : ∀ uri target, (Effect.locateBlob uri).Opens root target → BlobPath.IsBelow root target :=
    fun _ _ h => nomatch h
  have hget : ∀ path target, (Effect.getBlob path).Opens root target → BlobPath.IsBelow root target :=
    fun _ _ h => BlobPath.isBelow_of_resolve h
  refine (asks_owned hexecute _ id user _).bind fun row => (asks_orMissing _ _).bind fun uri => ?_
  refine (asks_requesting (hlocate uri) _).bind fun found => (asks_orMissing found _).bind fun path => ?_
  refine Asks.bind ?_ fun bytes => asks_pure _
  exact (asks_requesting (hget path) _).bind fun found => asks_orMissing found _

/-- Paths, URIs and downloads. A path is accepted exactly if each of its segments is a name, and then it is
joined to the root as these segments. A URI leads to a path exactly if it is the public path without the
slashes at its end, a slash and the path, so the URI of a put leads back. A download opens no file but below
the root, and what it serves is the file that the URI in a row leads to. -/
theorem blobs_stay_below_root (root : String) (store : BlobStore) :
    (∀ path, (∃ names, BlobPath.check path = .ok names) ↔
        ∀ segment ∈ BlobPath.segments path, segment ≠ "" ∧ segment ≠ "." ∧ segment ≠ "..") ∧
      (∀ path names, BlobPath.check path = .ok names → names = BlobPath.segments path ∧
        BlobPath.components (BlobPath.join root path) = BlobPath.components root ++ names.map .normal) ∧
      (∀ path names, BlobPath.check path = .ok names → store.locate (store.uri path) = some path) ∧
      (∀ path bytes uri store', store.put path bytes = (.ok uri, store') →
        uri = store.uri path ∧ store.locate uri = some path ∧ store'.locate uri = some path) ∧
      (∃ bare n, store.publicPath = bare ++ String.ofList (List.replicate n '/') ∧
        bare.toList.getLast? ≠ some '/' ∧
        ∀ uri path, store.locate uri = some path ↔ uri = bare ++ "/" ++ path ∧ path ≠ "") ∧
      (∀ id user script x, (download id user).run.Plays script x → ∀ exchange ∈ script,
        ∀ target, exchange.effect.Opens root target → BlobPath.IsBelow root target) ∧
      ∀ (e : Engine) (s s' : Storage) id user (file : Download), (download id user).run.Runs e s (.ok file) s' →
        s' = s ∧ ∃ r ∈ s.db.rows "resumes", ∃ uri path names, castUuid (.text user) = .ok (r.column "user_id") ∧
          r.column "file_uri" = .text uri ∧ s.blobs.locate uri = some path ∧ BlobPath.check path = .ok names ∧
          s.blobs.disk.read names = .file file.bytes := by
  refine ⟨fun path => ?_, fun path names h => ?_, fun path names h => ?_, fun path bytes uri store' h => ?_, ?_,
    fun id user => opens_download root id user, fun e s s' id user file => runs_download⟩
  · simp only [BlobPath.check_eq_ok_iff, exists_eq_right, BlobPath.isValid_iff]
  · obtain ⟨hvalid, rfl⟩ := BlobPath.check_eq_ok_iff.mp h
    exact ⟨rfl, BlobPath.components_join hvalid root⟩
  · exact BlobStore.locate_uri_of_isValid (BlobPath.isValid_of_check h) store
  · obtain ⟨hvalid, rfl, hpublic⟩ := BlobStore.put_eq_ok h
    have hlocate := BlobStore.locate_uri_of_isValid hvalid store
    refine ⟨rfl, hlocate, ?_⟩
    rwa [BlobStore.locate, hpublic]
  · obtain ⟨n, hpublic, hlast⟩ := BlobPath.exists_slashes store.publicPath
    exact ⟨_, n, hpublic, hlast, fun uri path => BlobPath.ofUri?_eq_some_iff⟩

/-! ## A download that is served -/

/-- A row of the user's whose URI leads to a stored file is downloaded. -/
theorem exists_runs_download {scope : Value × Value} (hscope : castScope id user = .ok scope) {r : Record}
    (hrow : (e.arrange [] ((s.db.rows "resumes").filter fun r => IsRow scope.1 scope.2 r)).head? = some r)
    {uri path : String} {bytes : ByteArray} (huri : r.column "file_uri" = .text uri)
    (hlocate : s.blobs.locate uri = some path) (hget : s.blobs.get path = .ok (some bytes)) :
    ∃ name, (download id user).run.Runs e s (.ok ⟨name, bytes⟩) s := by
  let row := Columns.pick r (.these ["file_name", "file_uri"])
  have htext : (row.get? "file_uri").bind Value.text? = some uri := by
    simp [row, Columns.pick, Record.get?_cons, huri, Value.text?]
  have hpicked : (((e.arrange [] ((s.db.rows "resumes").filter fun r => IsRow scope.1 scope.2 r)).map
      fun r => Columns.pick r (.these ["file_name", "file_uri"]))).head? = some row := by
    rw [List.head?_map, hrow]
    rfl
  have howned : ∀ missing, (owned "SELECT file_name, file_uri FROM resumes WHERE id = $1::uuid AND user_id = $2::uuid"
      id user missing).run.Runs e s (.ok row) s := fun missing =>
    Runs.owned read?_download (run_own "resumes" ["file_name", "file_uri"] s.db) hscope hpicked
  have hread : ∀ missing, (readFile path missing).run.Runs e s (.ok bytes) s := fun missing =>
    Runs.andThen (runs_getBlob_iff.mpr ⟨by rw [hget]; rfl, rfl⟩) (runs_orMissing_eq_ok_iff.mpr ⟨rfl, rfl⟩)
  refine ⟨((row.get? "file_name").bind Value.text?).getD "resume.pdf", ?_⟩
  unfold download
  refine Runs.andThen (howned _) (Runs.andThen (runs_orMissing_eq_ok_iff.mpr ⟨htext, rfl⟩) ?_)
  refine Runs.andThen (runs_locateBlob_iff.mpr ⟨rfl, rfl⟩) ?_
  refine Runs.andThen (runs_orMissing_eq_ok_iff.mpr ⟨hlocate, rfl⟩) ?_
  exact Runs.andThen (hread _) (runs_pure_iff.mpr ⟨rfl, rfl⟩)

/-- Storage with one resume, whose file lies in the store. -/
def shelf (id user : String) (bytes : ByteArray) : Storage where
  db := Database.empty.set "resumes"
    [[("id", .text id), ("user_id", .text user), ("file_uri", .text "/uploads/cv.pdf")]]
  blobs := ⟨"/uploads//", ⟨[(["cv.pdf"], .file bytes)]⟩⟩
  issued := []

/-- A path that is accepted, a URI that leads out of the root, and a download. -/
theorem blobs_stay_below_root_shelf :
    BlobPath.check "cv.pdf" = .ok ["cv.pdf"] ∧
      BlobPath.components (BlobPath.join "data/" "cv.pdf") = BlobPath.components "data/" ++ [.normal "cv.pdf"] ∧
      (BlobStore.new "/uploads//").locate "/uploads/../secret" = some "../secret" ∧
      (¬ ∃ names, BlobPath.check "../secret" = .ok names) ∧
      ∃ (s : Storage) (id user : String) (file : Download), (download id user).run.Runs .plain s (.ok file) s ∧
        ∃ r ∈ s.db.rows "resumes", ∃ uri path names, castUuid (.text user) = .ok (r.column "user_id") ∧
          r.column "file_uri" = .text uri ∧ s.blobs.locate uri = some path ∧ BlobPath.check path = .ok names ∧
          s.blobs.disk.read names = .file file.bytes := by
  obtain ⟨haccepts, hresolves, -, -, -, -, hserves⟩ := blobs_stay_below_root "data/" (.new "/uploads//")
  have hcheck : BlobPath.check "cv.pdf" = .ok ["cv.pdf"] := by decide +kernel
  refine ⟨hcheck, (hresolves _ _ hcheck).2, by decide +kernel, ?_, ?_⟩
  · rw [haccepts]
    decide +kernel
  · let id := Uuid.print (List.replicate 32 1)
    let user := Uuid.print (List.replicate 32 2)
    have hid : castUuid (.text id) = .ok (.text id) := castUuid_replicate (by decide)
    have huser : castUuid (.text user) = .ok (.text user) := castUuid_replicate (by decide)
    have hscope : castScope id user = .ok (.text id, .text user) := castScope_eq_ok_iff.mpr ⟨hid, huser⟩
    let row : Record := [("id", .text id), ("user_id", .text user), ("file_uri", .text "/uploads/cv.pdf")]
    have hrow : (Engine.plain.arrange [] (((shelf id user ByteArray.empty).db.rows "resumes").filter fun r =>
        IsRow (.text id) (.text user) r)).head? = some row := by
      simp [shelf, Engine.plain, Sql.rows_set, IsRow, Record.column_cons, row]
    have hlocate : (shelf id user ByteArray.empty).blobs.locate "/uploads/cv.pdf" = some "cv.pdf" := by
      decide +kernel
    have hget : (shelf id user ByteArray.empty).blobs.get "cv.pdf" = .ok (some ByteArray.empty) := by
      rw [BlobStore.get, hcheck]
      rfl
    obtain ⟨name, hruns⟩ : ∃ name, (download id user).run.Runs .plain (shelf id user ByteArray.empty)
        (.ok ⟨name, ByteArray.empty⟩) (shelf id user ByteArray.empty) :=
      exists_runs_download hscope hrow rfl hlocate hget
    exact ⟨_, id, user, _, hruns, (hserves _ _ _ id user _ hruns).2⟩

end Resume
end JobTrail
