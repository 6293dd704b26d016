import JobTrail.Proofs.Resume.Filing
import JobTrail.Proofs.Tenancy.Isolation

/-!
# Uploads stay

Any calls of the services for resumes run at the same time on one storage, which may fail at every effect.
In every state that is reached from an empty storage, a resume that was added by an upload names a file
with the uploaded bytes, and a tailored resume that names its download has a file there.
-/

set_option maxRecDepth 8192

namespace JobTrail.Filing

open Sql Storage BlobPath Relation
open Tenancy (Registry Call ResumeCall TailoredCall Thread Configuration)
open Tenancy.Configuration (Moves initial)

variable {contents : Set ByteArray} {e : Engine} {place : Option String} {g : Stage Registry}

/-! ## Steps of services -/

theorem orderly_pure {α : Type} (a : α) : Orderly contents e place (pure a) g := Protocol.performs_pure trivial

theorem orderly_throw {α : Type} (err : ServiceError) : Orderly contents e place (throw err : Service α) g :=
  Protocol.performs_throw err

theorem orderly_first (rows : List Record) (missing : String) :
    Orderly contents e place (Service.first rows missing) g :=
  (Protocol.performs_first rows missing).imp fun _ _ _ => trivial

theorem orderly_orMissing {α : Type} (found : Option α) (missing : String) :
    Orderly contents e place (Service.orMissing found missing) g :=
  (Protocol.performs_orMissing found missing).imp fun _ _ _ => trivial

theorem orderly_owned {sql : String} {cs : List Char} (htext : Spells sql cs)
    (hq : spellsQuery keepsRows cs = true) (id user missing : String) :
    Orderly contents e place (Service.owned sql id user missing) g :=
  Protocol.performs_owned (orderly_keeping htext hq _) missing

theorem orderly_readFile (path missing : String) : Orderly contents e place (Resume.readFile path missing) g := by
  have hget : Orderly contents e place (Service.getBlob path) g :=
    Protocol.performs_getBlob (fun _ _ _ => adds_of_db_eq rfl) path
  exact hget.bind fun found _ _ => orderly_orMissing found missing

/-! ## Resumes -/

theorem orderly_pointProfile (user : String) (fileUri : Value) :
    Orderly contents e place (Resume.pointProfile user fileUri) g :=
  (orderly_keeping (spells_ofList _) (by decide) _).bind fun _ _ _ => orderly_pure ()

theorem orderly_create {user : String} {draft : Resume.Draft} {note : Value}
    (hnote : Noting place draft.fileUri note g) : Orderly contents e place (Resume.create user draft) g := by
  apply Protocol.performs_whether
  · intro hrest
    exact (orderly_keeping (spells_ofList _) (by decide) _).bind fun _ g₁ hlater => hrest g₁ hlater
  · intro g₁ hlater
    have hnote₁ := hnote.later hlater
    apply (performs_freshId hnote₁.stored).bind
    intro id g₂ hlater₂ hid
    apply (orderly_add hid (hnote₁.later hlater₂)).bind
    intro rows g₃ _
    apply (orderly_first rows _).bind
    intro resume g₄ _
    apply Protocol.performs_whether
    · intro hrest
      exact (orderly_pointProfile user _).bind fun _ g₅ hlater₅ => hrest g₅ hlater₅
    · intro g₅ _
      exact orderly_pure resume

/-- What is added without a file is noted as nothing of interest. -/
theorem noting_null (fileUri : String) : Noting none fileUri .null g where
  names := .inl rfl
  stored _ h := nomatch h
  placed _ h := nomatch h

theorem noting_stored {path : String} (hfile : HasFile g.storage path) :
    Noting (some path) (g.storage.blobs.uri path) (.text (g.storage.blobs.uri path)) g where
  names := .inr rfl
  stored other h := by
    rw [g.storage.blobs.uri_injective (Value.text.inj h)] at hfile
    exact hfile
  placed other h := by
    cases h
    rfl

theorem orderly_upload (hdigest : contents.InjOn digest) (user name fileName : String) {bytes : ByteArray}
    (hbytes : bytes ∈ contents) (primary : Bool) :
    Orderly contents e (some (resume user fileName bytes)) (Resume.upload user name fileName bytes primary) g := by
  apply (performs_putBlob (fitsAt_resume hdigest hbytes user fileName)).bind
  rintro _ g₁ _ ⟨rfl, hfile⟩
  exact orderly_create (noting_stored hfile)

theorem orderly_resume_update (id user : String) (patch : Value) :
    Orderly contents e place (Resume.update id user patch) g := by
  apply (orderly_owned (spells_ofList _) (by decide) id user _).bind
  intro existing g₁ _
  unfold Service.compile
  cases hs : Resume.updateTemplate.compile [.text id, .text user] patch with
  | error err => exact orderly_throw _
  | ok statement =>
    apply Protocol.performs_whether
    · intro hrest
      apply (orderly_keeping (spells_ofList _) (by decide) _).bind
      intro _ g₂ hlater
      exact (orderly_pointProfile user _).bind fun _ g₃ hlater₃ => hrest g₃ (hlater.trans hlater₃)
    · intro g₂ _
      exact (orderly_resume_patch hs).bind fun rows _ _ => orderly_first rows _

theorem orderly_resume_download (id user : String) : Orderly contents e place (Resume.download id user) g := by
  apply (orderly_owned (spells_ofList _) (by decide) id user _).bind
  intro row g₁ _
  apply (orderly_orMissing _ _).bind
  intro uri g₂ _
  have hlocate : Orderly contents e place (Service.locateBlob uri) g₂ :=
    Protocol.performs_locateBlob (fun _ _ _ => adds_of_db_eq rfl) uri
  apply hlocate.bind
  intro found g₃ _
  apply (orderly_orMissing found _).bind
  intro path g₄ _
  exact (orderly_readFile path _).bind fun _ _ _ => orderly_pure _

/-! ## Tailored resumes -/

theorem orderly_tailored_create (hdefault : (e.defaults "tailored_resumes").column "file_uri" = .null)
    (user : String) (draft : Tailored.Draft) : Orderly contents e none (Tailored.create user draft) g := by
  apply (orderly_owned (spells_ofList _) (by decide) draft.originalId user _).bind
  intro _ g₁ _
  apply (performs_freshId (noting_null "").stored).bind
  intro id g₂ _ _
  exact (orderly_request hdefault _).bind fun rows _ _ => orderly_first rows _

/-- The entries for a new file assign its download, where a file lies by then. -/
theorem performs_storeFile (id : String) (file : Option ByteArray) :
    (protocol contents).Performs e (Adds place)
      (fun entries g => entries = [] ∨
        entries = [("fileUri", .text (tailoredDownload id))] ∧ HasFile g.storage (BlobPath.tailored id))
      (Tailored.storeFile id file) g := by
  cases file with
  | none => exact Protocol.performs_pure (.inl rfl)
  | some bytes =>
    apply (performs_putBlob (fitsAt_tailored id bytes)).bind
    rintro _ g₁ _ ⟨-, hfile⟩
    exact Protocol.performs_pure (.inr ⟨rfl, hfile⟩)

section Entries

variable (status : Option String)

def statusEntries : List (String × Value) := status.toList.map fun s => ("processingStatus", .text s)

def statusFields : List (String × Value) := status.toList.map fun s => ("processing_status", .text s)

theorem patchedFields_status :
    patchedFields Tailored.fields (.record (statusEntries status)) = statusFields status := by
  cases status <;> rfl

theorem patchedFields_file (address : String) :
    patchedFields Tailored.fields (.record (("fileUri", .text address) :: statusEntries status))
      = ("file_uri", .text address) :: statusFields status := by
  cases status <;> rfl

theorem file_notMem_statusFields (v : Value) : ("file_uri", v) ∉ statusFields status := by
  simp [statusFields]

end Entries

theorem orderly_tailored_update (id user : String) (change : Tailored.Change) :
    Orderly contents e place (Tailored.update id user change) g := by
  apply (orderly_owned (spells_ofList _) (by decide) id user _).bind
  intro _ g₁ _
  apply (performs_storeFile id change.file).bind
  intro file g₂ _ hfile
  dsimp only
  split
  · exact orderly_throw _
  · rename_i statement hs
    apply (orderly_tailored_patch hs ?_).bind
    · exact fun rows _ _ => orderly_first rows _
    · intro other hmem
      rcases hfile with rfl | ⟨rfl, hfile⟩
      · have hstatus : ("file_uri", _) ∈ statusFields change.status := patchedFields_status _ ▸ hmem
        exact absurd hstatus (file_notMem_statusFields _ _)
      · have hentries : ("file_uri", _) ∈ _ :: statusFields change.status := patchedFields_file _ _ ▸ hmem
        rcases List.mem_cons.mp hentries with heq | hstatus
        · have hid := tailoredDownload_injective (Value.text.inj (Prod.ext_iff.mp heq).2)
          rwa [hid]
        · exact absurd hstatus (file_notMem_statusFields _ _)

/-! ## Calls -/

/-- Where a call stores the file of the resume that it adds. -/
def placeOf : Call → Option String
  | .resumes user (.upload _ fileName bytes _) => some (resume user fileName bytes)
  | _ => none

/-- A call of the services for resumes, with a content of the run if it uploads one. -/
def Uploads (contents : Set ByteArray) : Call → Prop
  | .resumes _ (.upload _ _ bytes _) => bytes ∈ contents
  | .resumes .. | .tailored .. => True
  | _ => False

theorem orderly_one {m : Service Record} (h : Orderly contents e place m g) :
    Orderly contents e place (do return [← m]) g := h.bind fun _ _ _ => orderly_pure _

theorem orderly_none {α : Type} {m : Service α} (h : Orderly contents e place m g) :
    Orderly contents e place (do
      let _ ← m
      return ([] : List Record)) g := h.bind fun _ _ _ => orderly_pure _

theorem orderly_resumes (hdigest : contents.InjOn digest) {user : String} {c : ResumeCall}
    (hc : Uploads contents (.resumes user c)) :
    Orderly contents e (placeOf (.resumes user c)) (c.rows user) g := by
  cases c with
  | list => exact orderly_keeping (spells_ofList _) (by decide) _
  | find id => exact orderly_one (orderly_owned (spells_ofList _) (by decide) id user _)
  | create draft => exact orderly_one (orderly_create (noting_null draft.fileUri))
  | upload name fileName bytes primary =>
    exact orderly_one (orderly_upload hdigest user name fileName hc primary)
  | update id patch => exact orderly_one (orderly_resume_update id user patch)
  | delete id =>
    apply orderly_none
    exact (orderly_owned (spells_ofList _) (by decide) id user _).bind fun _ _ _ => orderly_pure ()
  | download id => exact orderly_none (orderly_resume_download id user)

theorem orderly_tailored (hdefault : (e.defaults "tailored_resumes").column "file_uri" = .null)
    (user : String) (c : TailoredCall) : Orderly contents e none (c.rows user) g := by
  have hselection : Spells Tailored.selection _ :=
    ((spells_ofList _).append (spells_ofList _)).append (spells_ofList _)
  cases c with
  | list => exact orderly_keeping (hselection.append (spells_ofList _)) (by decide) _
  | find id => exact orderly_one (orderly_owned (hselection.append (spells_ofList _)) (by decide) id user _)
  | create draft => exact orderly_one (orderly_tailored_create hdefault user draft)
  | update id change => exact orderly_one (orderly_tailored_update id user change)
  | delete id =>
    apply orderly_none
    exact (orderly_owned (spells_ofList _) (by decide) id user _).bind fun _ _ _ => orderly_pure ()
  | download id =>
    apply orderly_none
    apply (orderly_owned (spells_ofList _) (by decide) id user _).bind
    intro _ g₁ _
    exact (orderly_readFile _ _).bind fun _ _ _ => orderly_pure _

theorem orderly_call (hdigest : contents.InjOn digest)
    (hdefault : (e.defaults "tailored_resumes").column "file_uri" = .null) {call : Call}
    (hcall : Uploads contents call) : Orderly contents e (placeOf call) call.rows g := by
  cases call with
  | resumes user c => exact orderly_resumes hdigest hcall
  | tailored user c => exact orderly_tailored hdefault user c
  | _ => exact hcall.elim

/-! ## Runs -/

variable {ρ : Registry} {conf conf' : Configuration} {call : Call}

/-- A call goes on by one effect. If that fails, no file is changed. -/
def GoesOn (e : Engine) (call : Call) (conf conf' : Configuration) : Prop :=
  ∃ r x, Moves e call r x conf conf' ∧ Responds e conf.storage r x conf'.storage

inductive Step (e : Engine) (contents : Set ByteArray) : Configuration → Configuration → Prop where
  | start (conf : Configuration) {call : Call} : Uploads contents call →
      Step e contents conf ⟨conf.storage, ⟨call, call.rows.run⟩ :: conf.threads⟩
  | move {conf conf' : Configuration} {call : Call} : GoesOn e call conf conf' → Step e contents conf conf'

def Reach (e : Engine) (contents : Set ByteArray) : Configuration → Configuration → Prop :=
  ReflTransGen (Step e contents)

structure IsOrderly (contents : Set ByteArray) (e : Engine) (g : Stage Registry) (t : Thread) : Prop where
  uploads : Uploads contents t.call
  rest : Orderly contents e (placeOf t.call) (ExceptT.mk t.rest) g

theorem IsOrderly.later {g' : Stage Registry} {t : Thread} (h : IsOrderly contents e g t) (hlater : Later g g') :
    IsOrderly contents e g' t := ⟨h.uploads, Protocol.Keeps.later (fun _ hx => hx) h.rest hlater⟩

/-- The invariant of a run. -/
structure Safe (contents : Set ByteArray) (e : Engine) (ρ : Registry) (conf : Configuration) : Prop where
  filed : Filed contents ⟨conf.storage, ρ⟩
  threads : ∀ t ∈ conf.threads, IsOrderly contents e ⟨conf.storage, ρ⟩ t

theorem safe_initial (contents : Set ByteArray) (e : Engine) (publicPath : String) :
    Safe contents e .none (initial publicPath) := by
  refine ⟨⟨BlobStore.isTree_new publicPath, ?_, ?_, ?_, ?_, ?_⟩, ?_⟩
  · intro id note h
    cases h
  · intro user file bytes _ found hfound
    cases (BlobStore.content_new publicPath _).symm.trans hfound
  · intro id path h
    cases h
  · intro r hr
    cases hr
  · intro r hr
    cases hr
  · intro t ht
    cases ht

theorem Safe.goesOn (h : Safe contents e ρ conf) (hgoes : GoesOn e call conf conf') :
    Uploads contents call ∧ ∃ ρ', Later ⟨conf.storage, ρ⟩ ⟨conf'.storage, ρ'⟩ ∧
      Adds (placeOf call) ⟨conf.storage, ρ⟩ ⟨conf'.storage, ρ'⟩ ∧ Safe contents e ρ' conf' := by
  obtain ⟨r, x, ⟨before, after, next, -⟩, hresponds⟩ := hgoes
  have hthread := h.threads ⟨call, .ask r next⟩ (by simp)
  obtain ⟨ρ', hlater, hfiled, hadds, hnext⟩ := hthread.rest _ x _ (.refl _) h.filed hresponds
  refine ⟨hthread.uploads, ρ', hlater, hadds, hfiled, ?_⟩
  intro t ht
  rcases List.mem_append.mp ht with ht | ht
  · exact (h.threads t (by simp [ht])).later hlater
  · rcases List.mem_cons.mp ht with rfl | ht
    · exact ⟨hthread.uploads, hnext⟩
    · exact (h.threads t (by simp [ht])).later hlater

section Assumptions

variable (hdigest : contents.InjOn digest) (hdefault : (e.defaults "tailored_resumes").column "file_uri" = .null)
include hdigest hdefault

theorem Safe.step (h : Safe contents e ρ conf) (hstep : Step e contents conf conf') :
    ∃ ρ', Later ⟨conf.storage, ρ⟩ ⟨conf'.storage, ρ'⟩ ∧ Safe contents e ρ' conf' := by
  cases hstep with
  | start hcall =>
    refine ⟨ρ, .refl _, h.filed, ?_⟩
    intro t ht
    rcases List.mem_cons.mp ht with rfl | ht
    · exact ⟨hcall, orderly_call hdigest hdefault hcall⟩
    · exact h.threads t ht
  | move hgoes =>
    obtain ⟨-, ρ', hlater, -, hsafe⟩ := h.goesOn hgoes
    exact ⟨ρ', hlater, hsafe⟩

theorem Safe.reach (h : Safe contents e ρ conf) (hreach : Reach e contents conf conf') :
    ∃ ρ', Later ⟨conf.storage, ρ⟩ ⟨conf'.storage, ρ'⟩ ∧ Safe contents e ρ' conf' := by
  induction hreach with
  | refl => exact ⟨ρ, .refl _, h⟩
  | tail _ hstep ih =>
    obtain ⟨ρ₁, hlater₁, hsafe₁⟩ := ih
    obtain ⟨ρ₂, hlater₂, hsafe₂⟩ := hsafe₁.step hdigest hdefault hstep
    exact ⟨ρ₂, hlater₁.trans hlater₂, hsafe₂⟩

end Assumptions

/-! ## Files of rows -/

/-- A value is the URI of a path at which the bytes are stored. -/
def LeadsTo (s : BlobStore) (bytes : ByteArray) (v : Value) : Prop :=
  ∃ uri path, v = .text uri ∧ s.locate uri = some path ∧ s.get path = .ok (some bytes)

/-- A row whose id was noted with an upload names the file of the upload. -/
theorem Filed.leadsTo (h : Filed contents g) {r : Record} (hr : r ∈ g.storage.db.rows "resumes")
    {user file : String} {bytes : ByteArray} (hbytes : bytes ∈ contents)
    (hnoted : g.ledger (r.column "id") = some (.text (g.storage.blobs.uri (resume user file bytes)))) :
    LeadsTo g.storage.blobs bytes (r.column "file_uri") := by
  obtain ⟨note, hnote, hnames⟩ := h.resumes r hr
  cases hnoted.symm.trans hnote
  obtain ⟨found, hfound⟩ := h.stored _ _ hnoted
  obtain rfl := h.addressed user file bytes hbytes found hfound
  rcases hnames with hnull | huri
  · cases hnull
  · exact ⟨_, _, huri, BlobStore.locate_uri hfound, BlobStore.content_eq_some_iff_get.mp hfound⟩

/-- No row that an upload has added ever dangles, and no tailored resume that names its download does. -/
theorem uploads_never_dangle (e : Engine) (publicPath : String) {contents : Set ByteArray}
    (hdigest : contents.InjOn digest) (hdefault : (e.defaults "tailored_resumes").column "file_uri" = .null)
    {conf : Configuration} (hreach : Reach e contents (initial publicPath) conf) :
    (∀ user name fileName bytes primary row conf',
      GoesOn e (.resumes user (.upload name fileName bytes primary)) conf conf' →
      conf'.storage.db.rows "resumes" = conf.storage.db.rows "resumes" ++ [row] →
      ∀ conf'', Reach e contents conf' conf'' → ∀ r ∈ conf''.storage.db.rows "resumes",
        r.column "id" = row.column "id" → LeadsTo conf''.storage.blobs bytes (r.column "file_uri")) ∧
    (∀ r ∈ conf.storage.db.rows "tailored_resumes", ∀ id, r.column "file_uri" = .text (tailoredDownload id) →
      ∃ bytes, conf.storage.blobs.get (BlobPath.tailored id) = .ok (some bytes)) := by
  obtain ⟨ρ, -, hsafe⟩ := (safe_initial contents e publicPath).reach hdigest hdefault hreach
  constructor
  · intro user name fileName bytes primary row conf' hgoes hadded conf'' hreach' r hr hid
    obtain ⟨hbytes, ρ', -, hadds, hsafe'⟩ := hsafe.goesOn hgoes
    have hnoted := hadds _ rfl row hadded
    obtain ⟨ρ'', hlater, hsafe''⟩ := hsafe'.reach hdigest hdefault hreach'
    apply hsafe''.filed.leadsTo hr hbytes
    rw [hid, hlater.uri]
    exact hlater.ledger _ _ hnoted
  · intro r hr id hid
    obtain ⟨bytes, hbytes⟩ := hsafe.filed.tailored r hr id hid
    exact ⟨bytes, BlobStore.content_eq_some_iff_get.mp hbytes⟩

/-- An upload that storage serves, in a run of its own. -/
theorem exists_upload {user id fileName publicPath uri : String} (name : String) {bytes : ByteArray}
    {blobs : BlobStore} {owner new : Value} (huser : castUuid (.text user) = .ok owner)
    (hid : castUuid (.text id) = .ok new)
    (hput : (BlobStore.new publicPath).put (resume user fileName bytes) bytes = (.ok uri, blobs)) :
    ∃ conf conf' row, Reach .plain {bytes} (initial publicPath) conf ∧
      GoesOn .plain (.resumes user (.upload name fileName bytes false)) conf conf' ∧
      conf'.storage.db.rows "resumes" = conf.storage.db.rows "resumes" ++ [row] := by
  have hstored : Serves .plain (.empty publicPath) (.putBlob (resume user fileName bytes) bytes) (.ok uri)
      { Storage.empty publicPath with blobs } := by
    have hserves := Serves.putBlob (e := .plain) (.empty publicPath) (resume user fileName bytes) bytes
    rwa [show (Storage.empty publicPath).blobs.put _ bytes = (.ok uri, blobs) from hput] at hserves
  have hgiven := Serves.freshId (e := .plain) { Storage.empty publicPath with blobs } hid (by simp [Storage.empty])
  have hrun : Resume.addition.run .plain [.text id, .text user, .text name, .text fileName, .text uri,
      .bool false] .empty = .ok ([Resume.newResume .plain new owner ⟨name, fileName, uri, false⟩],
        Database.empty.set "resumes" [Resume.newResume .plain new owner ⟨name, fileName, uri, false⟩]) := by
    simp [Resume.addition, Query.run, Operand.bind, argument, castTo, hid, huser, Except.map]
    rfl
  have hcall : Uploads {bytes} (.resumes user (.upload name fileName bytes false)) := Set.mem_singleton bytes
  have hstarted := ReflTransGen.refl.tail (Step.start (e := .plain) (initial publicPath) hcall)
  have hput := hstarted.tail (.move ⟨_, _, .move [] [] _ (.inl hstored), .inl hstored⟩)
  have hissued := hput.tail (.move ⟨_, _, .move [] [] _ (.inl hgiven), .inl hgiven⟩)
  have hadded := Serves.of_run (s := { Storage.empty publicPath with blobs, issued := [new] })
    Resume.read?_addition hrun
  exact ⟨_, _, _, hissued, ⟨_, _, .move [] [] _ (.inl hadded), .inl hadded⟩, rfl⟩

def pdf : ByteArray := "%PDF".toUTF8

theorem uploads_never_dangle_pdf : ∃ user conf conf' row, Reach .plain {pdf} (initial "/files") conf ∧
    GoesOn .plain (.resumes user (.upload "CV" "cv.pdf" pdf false)) conf conf' ∧
    row ∈ conf'.storage.db.rows "resumes" ∧ LeadsTo conf'.storage.blobs pdf (row.column "file_uri") := by
  let user := "11111111-1111-1111-1111-111111111111"
  let id := "22222222-2222-2222-2222-222222222222"
  have huser : castUuid (.text user) = .ok (.text user) := by decide +kernel
  have hid : castUuid (.text id) = .ok (.text id) := by decide +kernel
  have hvalid : isValid (resume user "cv.pdf" pdf) := by decide +kernel
  have hwritten : ((BlobStore.new "/files").disk.write (segments (resume user "cv.pdf" pdf)) pdf).2 := by
    decide +kernel
  have hput := BlobStore.put_of_isValid hvalid pdf (s := .new "/files")
  rw [if_pos hwritten] at hput
  obtain ⟨conf, conf', row, hreach, hgoes, hadded⟩ := exists_upload "CV" huser hid hput
  have hrow : row ∈ conf'.storage.db.rows "resumes" := by simp [hadded]
  refine ⟨user, conf, conf', row, hreach, hgoes, hrow, ?_⟩
  exact (uploads_never_dangle .plain "/files" (Set.injOn_singleton _ _) rfl hreach).1 user "CV" "cv.pdf" pdf
    false row conf' hgoes hadded conf' .refl row hrow rfl

end JobTrail.Filing
