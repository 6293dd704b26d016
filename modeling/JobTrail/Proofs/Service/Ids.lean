import JobTrail.Proofs.Blob.Store
import JobTrail.Proofs.Service.Composition
import JobTrail.Proofs.Storage
import JobTrail.Proofs.Tenancy.Calls

/-!
# Ids that are checked

A call for one row looks at the spelling of the id before it asks for anything, so an id that is no UUID is
answered without storage. The file of a tailored resume lies where the id says. Such a place is asked for
only after the id was found to be a UUID, and a UUID has nothing in it that a path must not have, so the
blob store has no reason to refuse it.
-/

namespace JobTrail

open Storage

/-! ## Ids that are no UUIDs -/

namespace Service

variable {α β : Type} {sql id user missing : String}

theorem owned_of_not_isUuid (h : ¬ Uuid.isUuid id) : owned sql id user missing = throw (.notFound missing) :=
  if_neg h

/-- What comes after an error is not asked for. -/
theorem throw_andThen (err : ServiceError) (f : α → Service β) : (throw err >>= f : Service β) = throw err := rfl

theorem run_throw (err : ServiceError) : (throw err : Service α).run = .done (.error err) := rfl

end Service

namespace Tenancy

open Service

/-- The id that a call looks at first, and what it answers if that is no UUID. -/
structure Guard where
  id : String
  refusal : Except ServiceError (List Record)

def ApplicationCall.guard? : ApplicationCall → Option Guard
  | find id | update id _ | delete id => some ⟨id, .error (.notFound Application.missing)⟩
  | list | create _ => none

def ChecklistCall.guard? : ChecklistCall → Option Guard
  | list (some company) => some ⟨company, .ok []⟩
  | post draft => some ⟨draft.companyId, .error (.notFound Company.missing)⟩
  | find id | update id _ | delete id => some ⟨id, .error (.notFound Checklist.missing)⟩
  | list none => none

def ResumeCall.guard? : ResumeCall → Option Guard
  | find id | update id _ | delete id => some ⟨id, .error (.notFound Resume.missing)⟩
  | download id => some ⟨id, .error (.notFound Resume.missingFile)⟩
  | list | create _ | upload .. => none

def TailoredCall.guard? : TailoredCall → Option Guard
  | find id | update id _ | delete id => some ⟨id, .error (.notFound Tailored.missing)⟩
  | download id => some ⟨id, .error (.notFound Tailored.missingFile)⟩
  | create draft => some ⟨draft.originalId, .error (.notFound Resume.missing)⟩
  | list => none

def CompanyCall.guard? : CompanyCall → Option Guard
  | find id => some ⟨id, .error (.notFound Company.missing)⟩
  | list | create _ => none

def Call.guard? : Call → Option Guard
  | applications _ c => c.guard?
  | checklist _ c => c.guard?
  | resumes _ c => c.guard?
  | tailored _ c => c.guard?
  | companies c => c.guard?
  | users _ => none

variable {guard : Guard} {user : String}

theorem ApplicationCall.refuses {c : ApplicationCall} (h : c.guard? = some guard)
    (hid : ¬ Uuid.isUuid guard.id) : (c.rows user).run = .done guard.refusal := by
  cases c with
  | list | create _ => cases h
  | _ =>
    cases h
    simp only [rows, Application.find, Application.update, Application.delete, owned_of_not_isUuid hid,
      throw_andThen, run_throw]

theorem ChecklistCall.refuses {c : ChecklistCall} (h : c.guard? = some guard)
    (hid : ¬ Uuid.isUuid guard.id) : (c.rows user).run = .done guard.refusal := by
  cases c with
  | list company =>
    cases company with
    | none => cases h
    | some company =>
      cases h
      simp only [rows, Checklist.list, if_neg hid]
      rfl
  | post draft =>
    cases h
    simp only [rows, Checklist.post, if_neg hid, throw_andThen, run_throw, Company.missing]
  | _ =>
    cases h
    simp only [rows, Checklist.find, Checklist.update, Checklist.delete, owned_of_not_isUuid hid, throw_andThen,
      run_throw]

theorem ResumeCall.refuses {c : ResumeCall} (h : c.guard? = some guard) (hid : ¬ Uuid.isUuid guard.id) :
    (c.rows user).run = .done guard.refusal := by
  cases c with
  | list | create _ | upload _ _ _ _ => cases h
  | _ =>
    cases h
    simp only [rows, Resume.find, Resume.update, Resume.delete, Resume.download, owned_of_not_isUuid hid,
      throw_andThen, run_throw]

theorem TailoredCall.refuses {c : TailoredCall} (h : c.guard? = some guard) (hid : ¬ Uuid.isUuid guard.id) :
    (c.rows user).run = .done guard.refusal := by
  cases c with
  | list => cases h
  | _ =>
    cases h
    simp only [rows, Tailored.find, Tailored.create, Tailored.update, Tailored.delete, Tailored.download,
      Tailored.check, Resume.find, owned_of_not_isUuid hid, throw_andThen, run_throw]

theorem CompanyCall.refuses {c : CompanyCall} (h : c.guard? = some guard) (hid : ¬ Uuid.isUuid guard.id) :
    c.rows.run = .done guard.refusal := by
  cases c with
  | list | create _ => cases h
  | find id =>
    cases h
    simp only [rows, Company.find, if_neg hid, throw_andThen, run_throw]

/-- A call whose id is no UUID is over before anything was asked for. -/
theorem Call.refuses {call : Call} (h : call.guard? = some guard) (hid : ¬ Uuid.isUuid guard.id) :
    call.rows.run = .done guard.refusal := by
  cases call with
  | applications user c => exact ApplicationCall.refuses h hid
  | checklist user c => exact ChecklistCall.refuses h hid
  | resumes user c => exact ResumeCall.refuses h hid
  | tailored user c => exact TailoredCall.refuses h hid
  | companies c => exact CompanyCall.refuses h hid
  | users c => cases h

end Tenancy

/-! ## Places of blobs -/

/-- A blob is asked for at a valid path. -/
def Effect.InPlace : Effect → Prop
  | .putBlob path _ | .getBlob path => BlobPath.isValid path
  | _ => True

/-- The blob store has called a path invalid. -/
inductive Exchange.Refuses (path : String) : Exchange → Prop where
  | put (asked : String) (bytes : ByteArray) : Refuses path ⟨.putBlob asked bytes, .error (.invalidPath path)⟩
  | get (asked : String) : Refuses path ⟨.getBlob asked, .error (.invalidPath path)⟩

/-- No valid path is called invalid. -/
def Exchange.RefusesRightly (x : Exchange) : Prop := ∀ path, x.Refuses path → ¬ x.effect.InPlace

theorem Storage.Serves.refusesRightly {e : Sql.Engine} {s s' : Storage} {x : Exchange}
    (h : Serves e s x.effect x.answer s') : x.RefusesRightly := by
  intro path hrefuses hplace
  cases hrefuses with
  | put asked bytes =>
    dsimp only at h
    generalize hanswer : (Except.error (.invalidPath path) : Except BlobError String) = answer at h
    cases h
    rw [BlobStore.put_of_isValid hplace] at hanswer
    dsimp only at hanswer
    split at hanswer
    all_goals cases hanswer
  | get asked =>
    dsimp only at h
    generalize hanswer : (Except.error (.invalidPath path) : Except BlobError (Option ByteArray)) = answer at h
    cases h
    rw [BlobStore.get_of_isValid hplace] at hanswer
    split at hanswer
    all_goals cases hanswer

namespace Service

variable {α β : Type} {m : Service α}

/-- A service asks for blobs at valid paths, and it ends with a path being invalid only if it was told so. -/
structure Placed (m : Service α) : Prop where
  asks : Asks Effect.InPlace m
  told : ∀ script path, m.run.Plays script (.error (.blob (.invalidPath path))) →
    ∃ exchange ∈ script, exchange.Refuses path

theorem placed_pure (a : α) : Placed (pure a : Service α) :=
  ⟨asks_pure a, fun _ _ hplays => nomatch (Task.plays_done_iff.mp hplays).2⟩

theorem placed_throw {err : ServiceError} (h : ∀ path, err ≠ .blob (.invalidPath path)) :
    Placed (throw err : Service α) := by
  refine ⟨asks_throw err, fun script path hplays => ?_⟩
  cases (Task.plays_done_iff.mp hplays).2
  exact absurd rfl (h path)

theorem Placed.bind {f : α → Service β} (hm : Placed m) (hf : ∀ a, Placed (f a)) : Placed (m >>= f) := by
  refine ⟨hm.asks.bind fun a => (hf a).asks, fun script path hplays => ?_⟩
  rcases Task.plays_andThen_iff.mp hplays with ⟨first, rest, a, rfl, -, hrest⟩ | ⟨err, hfirst, herr⟩
  · obtain ⟨exchange, hmem, hrefuses⟩ := (hf a).told rest path hrest
    exact ⟨exchange, List.mem_append_right first hmem, hrefuses⟩
  · cases herr
    exact hm.told script path hfirst

theorem placed_requesting {r : Effect} {f : r.Answer → Except ServiceError α} (hplace : r.InPlace)
    (hf : ∀ y path, f y = .error (.blob (.invalidPath path)) → Exchange.Refuses path ⟨r, y⟩) :
    Placed (requesting r f) := by
  refine ⟨asks_requesting hplace f, fun script path hplays => ?_⟩
  obtain ⟨y, rfl, hy⟩ := plays_requesting_iff.mp hplays
  exact ⟨_, List.mem_singleton.mpr rfl, hf y path hy.symm⟩

theorem placed_execute (sql : String) (params : List Value) : Placed (execute sql params) := by
  refine placed_requesting trivial fun y path h => ?_
  cases y <;> cases h

theorem placed_freshId : Placed freshId :=
  placed_requesting (r := .freshId) (f := fun id : String => (.ok (.text id) : Except ServiceError Value)) trivial
    fun _ _ h => nomatch h

theorem placed_putBlob {path : String} (h : BlobPath.isValid path) (bytes : ByteArray) :
    Placed (putBlob path bytes) := by
  refine placed_requesting h fun y path' hy => ?_
  cases y with
  | ok uri => cases hy
  | error err =>
    cases hy
    exact .put path bytes

theorem placed_getBlob {path : String} (h : BlobPath.isValid path) : Placed (getBlob path) := by
  refine placed_requesting h fun y path' hy => ?_
  cases y with
  | ok found => cases hy
  | error err =>
    cases hy
    exact .get path

theorem placed_orMissing (found : Option α) (missing : String) : Placed (orMissing found missing) := by
  cases found with
  | none => exact placed_throw fun _ h => nomatch h
  | some a => exact placed_pure a

theorem placed_first (rows : List Record) (missing : String) : Placed (first rows missing) :=
  placed_orMissing rows.head? missing

theorem placed_owned (sql id user missing : String) : Placed (owned sql id user missing) := by
  unfold owned
  split
  · exact (placed_execute _ _).bind fun rows => placed_first rows missing
  · exact placed_throw fun _ h => nomatch h

/-- What comes after the look at an id may count on its being a UUID. -/
theorem placed_owned_andThen {sql id user missing : String} {f : Record → Service β}
    (hf : Uuid.isUuid id → ∀ row, Placed (f row)) : Placed (owned sql id user missing >>= f) := by
  by_cases hid : Uuid.isUuid id
  · exact (placed_owned sql id user missing).bind (hf hid)
  · rw [owned_of_not_isUuid hid, throw_andThen]
    exact placed_throw fun _ h => nomatch h

end Service

namespace Tenancy

open Service

theorem placed_update (id user : String) (change : Tailored.Change) : Placed (Tailored.update id user change) := by
  refine placed_owned_andThen fun hid _ => ?_
  have hplace := BlobPath.isValid_of_check (BlobPath.check_tailored (Uuid.slash_notMem hid))
  have hstore : Placed (Tailored.storeFile id change.file) := by
    cases change.file with
    | none => exact placed_pure _
    | some bytes => exact (placed_putBlob hplace bytes).bind fun _ => placed_pure _
  refine hstore.bind fun file => ?_
  simp only
  split
  · exact placed_throw fun _ h => nomatch h
  · exact (placed_execute _ _).bind fun rows => placed_first rows _

theorem placed_download (id user : String) : Placed (Tailored.download id user) := by
  refine placed_owned_andThen fun hid _ => ?_
  have hplace := BlobPath.isValid_of_check (BlobPath.check_tailored (Uuid.slash_notMem hid))
  refine Placed.bind ?_ fun _ => placed_pure _
  exact (placed_getBlob hplace).bind fun found => placed_orMissing found _

theorem TailoredCall.placed (c : TailoredCall) (user : String) : Placed (c.rows user) := by
  cases c with
  | list => exact placed_execute _ _
  | find id => exact (placed_owned _ id user _).bind fun _ => placed_pure _
  | create draft =>
    refine Placed.bind ?_ fun _ => placed_pure _
    refine (placed_owned _ _ user _).bind fun _ => placed_freshId.bind fun id => ?_
    exact (placed_execute _ _).bind fun rows => placed_first rows _
  | update id change => exact (placed_update id user change).bind fun _ => placed_pure _
  | delete id =>
    exact ((placed_owned _ id user _).bind fun _ => placed_pure ()).bind fun _ => placed_pure []
  | download id => exact (placed_download id user).bind fun _ => placed_pure []

/-- A call whose id is no UUID asks for nothing and says that the row is missing. The place of a tailored
resume's file is valid for every UUID, so its calls never end with an invalid path. -/
theorem calls_check_ids :
    (∀ (call : Call) (guard : Guard), call.guard? = some guard → ¬ Uuid.isUuid guard.id →
        call.rows.run = .done guard.refusal) ∧
      (∀ id, Uuid.isUuid id → BlobPath.check (BlobPath.tailored id) = .ok ["tailored", id ++ ".pdf"]) ∧
      (∀ (c : TailoredCall) user script x, (c.rows user).run.Plays script x →
        (∀ exchange ∈ script, exchange.effect.InPlace) ∧
          ((∀ exchange ∈ script, exchange.RefusesRightly) → ∀ path, x ≠ .error (.blob (.invalidPath path)))) ∧
      ∀ (e : Sql.Engine) (s s' : Storage) (exchange : Exchange),
        Serves e s exchange.effect exchange.answer s' → exchange.RefusesRightly := by
  refine ⟨fun call guard h hid => Call.refuses h hid,
    fun id hid => BlobPath.check_tailored (Uuid.slash_notMem hid), ?_, fun _ _ _ _ h => h.refusesRightly⟩
  intro c user script x hplays
  have hplaced := TailoredCall.placed c user
  have hplaces := hplaced.asks script x hplays
  refine ⟨hplaces, ?_⟩
  rintro hright path rfl
  obtain ⟨exchange, hmem, hrefuses⟩ := hplaced.told script path hplays
  exact hright exchange hmem path hrefuses (hplaces exchange hmem)

/-- The row is there, but not its file. -/
def withoutFile (id : String) : List Exchange :=
  [⟨.execute ⟨"SELECT id FROM tailored_resumes WHERE id = $1::uuid AND user_id = $2::uuid",
      [.text id, .text ""]⟩, .ok [[("id", .text id)]]⟩,
    ⟨.getBlob (BlobPath.tailored id), .ok none⟩]

theorem plays_withoutFile {id : String} (hid : Uuid.isUuid id) :
    ((TailoredCall.download id).rows "").run.Plays (withoutFile id) (.error (.notFound Tailored.missingFile)) := by
  rw [TailoredCall.rows, Tailored.download, Tailored.check, owned, if_pos hid]
  exact .ask (.ask (.done _))

/-- A version of a resume whose id is no UUID, and a file that is not there, whose id is spelled as a URN. -/
theorem calls_check_ids_tailored :
    let draft : Tailored.Draft := ⟨"nowhere", "", "", ""⟩
    let urn := "URN:uuid:01234567-89ab-cdef-0123-456789ABCDEF"
    ¬ Uuid.isUuid draft.originalId ∧
      (Call.tailored "" (.create draft)).rows.run = .done (.error (.notFound Resume.missing)) ∧
      Uuid.isUuid urn ∧ BlobPath.check (BlobPath.tailored urn) = .ok ["tailored", urn ++ ".pdf"] ∧
      ((TailoredCall.download urn).rows "").run.Plays (withoutFile urn) (.error (.notFound Tailored.missingFile)) ∧
      (∀ exchange ∈ withoutFile urn, exchange.effect.InPlace) ∧
      Serves .plain (.empty "") (.getBlob (BlobPath.tailored urn)) (.ok none) (.empty "") ∧
      ∀ exchange ∈ withoutFile urn, exchange.RefusesRightly := by
  obtain ⟨hrefuses, haccepts, hplaced, hright⟩ := calls_check_ids
  have hdraft : ¬ Uuid.isUuid "nowhere" := by decide
  have hurn : Uuid.isUuid "URN:uuid:01234567-89ab-cdef-0123-456789ABCDEF" := by decide +kernel
  have hcheck := haccepts _ hurn
  have hplays := plays_withoutFile hurn
  have hget : (Storage.empty "").blobs.get (BlobPath.tailored "URN:uuid:01234567-89ab-cdef-0123-456789ABCDEF") =
      .ok none := by
    rw [BlobStore.get, hcheck]
    rfl
  have hserves : Serves .plain (.empty "")
      (.getBlob (BlobPath.tailored "URN:uuid:01234567-89ab-cdef-0123-456789ABCDEF")) (.ok none) (.empty "") := by
    rw [← hget]
    exact .getBlob _ _
  refine ⟨hdraft, hrefuses (.tailored "" (.create _)) ⟨"nowhere", _⟩ rfl hdraft, hurn, hcheck, hplays,
    (hplaced (.download _) "" _ _ hplays).1, hserves, fun exchange hmem => ?_⟩
  rcases List.mem_pair.mp hmem with rfl | rfl
  · intro path hrefused
    cases hrefused
  · exact hright .plain _ _ ⟨_, _⟩ hserves

end Tenancy
end JobTrail
