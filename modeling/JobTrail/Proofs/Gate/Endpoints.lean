import JobTrail.Proofs.Gate.Handlers

/-!
# What each place asks for

What has to hold of a request before the handler of a guarded place makes its call: the id in the path can
be read, at the place of an account it is the caller's own, and the body passes the checks of the place.
Every handler makes its call exactly then, for the caller where the call is made for a user at all.
-/

namespace JobTrail

open Tenancy Handler

namespace GuardedPlace

/-! ## The demands of a place -/

def id? : GuardedPlace → Option String
  | user id | userTargets id | userStats id | company id | application id | checklistItem id
  | tailoredResume id | tailoredDownload id | resume id | resumeDownload id => some id
  | _ => none

/-- The account that a place is about, which is its owner's alone. -/
def account? : GuardedPlace → Option String
  | user id | userTargets id | userStats id => some id
  | _ => none

/-- Whom the calls at a place are made for. Companies belong to no user. -/
def owner? (caller : String) : GuardedPlace → Option String
  | companies | company _ => none
  | _ => some caller

def checks? : GuardedPlace → Method → Option (List Check)
  | user _, .put => some User.patchChecks
  | userTargets _, .put => some User.targetsChecks
  | companies, .post => some Company.draftChecks
  | applications, .post => some Application.draftChecks
  | application _, .put => some Application.patchChecks
  | checklist, .post => some Checklist.draftChecks
  | checklistItem _, .put => some Checklist.patchChecks
  | resumes, .post => some Resume.draftChecks
  | resumeUpload, .post => some Resume.uploadChecks
  | resumeTailor, .post => some Tailored.draftChecks
  | tailoredResume _, .put => some Tailored.statusChecks
  | resume _, .put => some Resume.patchChecks
  | _, _ => none

/-- The body that a place reads from a request: a JSON value, or the fields of a form in parts. An upload
has to bring a file. -/
def Reads (p : GuardedPlace) (v : Visit) (body : Value) : Prop :=
  match p with
  | resumeUpload => ∃ boundary sent, v.boundary? = some boundary ∧ v.Receives boundary sent ∧
      sent.file.isSome ∧ body = .record sent.fields
  | tailoredResume _ =>
    if Tailored.isInParts v.request then
      ∃ boundary sent, v.boundary? = some boundary ∧ v.Receives boundary sent ∧ body = .record sent.fields
    else v.jsonBody = .ok body
  | _ => v.jsonBody = .ok body

def isFiltered : GuardedPlace → Method → Bool
  | checklist, .get => true
  | _, _ => false

/-- Everything that a place asks of a request. -/
structure Admits (p : GuardedPlace) (m : Method) (caller : Caller) (v : Visit) : Prop where
  path : ∀ raw ∈ p.id?, ∃ id, Percent.decodeText? raw = some id
  self : ∀ raw ∈ p.account?, Percent.decodeText? raw = some caller.userId
  body : ∀ checks ∈ p.checks? m, ∃ body, p.Reads v body ∧ Passes checks body
  query : p.isFiltered m → ∃ company, Checklist.companyFilter v.request.query? = .ok company

structure Asks (p : GuardedPlace) (m : Method) (id account : Option String) (checks : Option (List Check)) :
    Prop where
  id_eq : p.id? = id
  account_eq : p.account? = account
  checks_eq : p.checks? m = checks
  unfiltered : p.isFiltered m = false

section Demands

variable {p : GuardedPlace} {m : Method} {caller : Caller} {v : Visit}

theorem admits_iff :
    p.Admits m caller v ↔
      (∀ raw ∈ p.id?, ∃ id, Percent.decodeText? raw = some id) ∧
      (∀ raw ∈ p.account?, Percent.decodeText? raw = some caller.userId) ∧
      (∀ checks ∈ p.checks? m, ∃ body, p.Reads v body ∧ Passes checks body) ∧
      (p.isFiltered m → ∃ company, Checklist.companyFilter v.request.query? = .ok company) :=
  ⟨fun h => ⟨h.path, h.self, h.body, h.query⟩, fun h => ⟨h.1, h.2.1, h.2.2.1, h.2.2.2⟩⟩

theorem Asks.admits_iff {id account : Option String} {checks : Option (List Check)}
    (h : p.Asks m id account checks) :
    p.Admits m caller v ↔
      (∀ raw ∈ id, ∃ id, Percent.decodeText? raw = some id) ∧
      (∀ raw ∈ account, Percent.decodeText? raw = some caller.userId) ∧
      (∀ list ∈ checks, ∃ body, p.Reads v body ∧ Passes list body) := by
  rw [GuardedPlace.admits_iff, h.id_eq, h.account_eq, h.checks_eq, h.unfiltered]
  simp

end Demands

/-! ## Handlers by what they read -/

section Shapes

variable {p : GuardedPlace} {m : Method} {caller : Caller} {v : Visit} {user : Option String}
  {raw : String} {checks : List Check}

theorem opens_index {endpoint : Caller → Handler Reply} (hasks : p.Asks m none none none)
    (h : (endpoint caller).Opens user True) :
    (plain endpoint caller v).Opens user (p.Admits m caller v) := by
  have hopens : (plain endpoint caller v).Opens user True := h.answer fun _ => ⟨_, rfl⟩
  exact hopens.congr (by simp [hasks.admits_iff])

theorem opens_post {endpoint : Caller → Value → Handler Reply} (hasks : p.Asks m none none (some checks))
    (hreads : ∀ body, p.Reads v body ↔ v.jsonBody = .ok body)
    (h : ∀ body, (endpoint caller body).Opens user (Passes checks body)) :
    (withBody endpoint caller v).Opens user (p.Admits m caller v) := by
  have hopens : (withBody endpoint caller v).Opens user
      (∃ body, v.jsonBody = .ok body ∧ Passes checks body) :=
    (decides_json v).andThen fun body _ => (h body).answer fun _ => ⟨_, rfl⟩
  exact hopens.congr (by simp [hasks.admits_iff, hreads])

theorem opens_withId {endpoint : Caller → String → Handler Reply} {H : String → Prop}
    (h : ∀ id, (endpoint caller id).Opens user (H id)) :
    (withId raw endpoint caller v).Opens user (∃ id, Percent.decodeText? raw = some id ∧ H id) :=
  (decides_pathId raw).andThen fun id _ => (h id).answer fun _ => ⟨_, rfl⟩

theorem opens_item {endpoint : Caller → String → Handler Reply} (hasks : p.Asks m (some raw) none none)
    (h : ∀ id, (endpoint caller id).Opens user True) :
    (withId raw endpoint caller v).Opens user (p.Admits m caller v) :=
  (opens_withId h).congr (by simp [hasks.admits_iff])

theorem opens_profile {endpoint : Caller → String → Handler Reply}
    (hasks : p.Asks m (some raw) (some raw) none)
    (h : ∀ id, (endpoint caller id).Opens user (id = caller.userId)) :
    (withId raw endpoint caller v).Opens user (p.Admits m caller v) :=
  (opens_withId h).congr (by simp +contextual [hasks.admits_iff])

theorem opens_download {endpoint : Caller → String → Handler HttpResponse}
    (hasks : p.Asks m (some raw) none none) (h : ∀ id, (endpoint caller id).Opens user True) :
    (download raw endpoint caller v).Opens user (p.Admits m caller v) := by
  have hopens := (decides_pathId raw).andThen fun id _ => h id
  exact hopens.congr (by simp [hasks.admits_iff])

theorem opens_withIdAndBody {endpoint : Caller → String → Value → Handler Reply}
    {H : String → Value → Prop} (h : ∀ id body, (endpoint caller id body).Opens user (H id body)) :
    (withIdAndBody raw endpoint caller v).Opens user
      (∃ id, Percent.decodeText? raw = some id ∧ ∃ body, v.jsonBody = .ok body ∧ H id body) :=
  (decides_pathId raw).andThen fun id _ => (decides_json v).andThen fun body _ =>
    (h id body).answer fun _ => ⟨_, rfl⟩

theorem opens_patch {endpoint : Caller → String → Value → Handler Reply}
    (hasks : p.Asks m (some raw) none (some checks))
    (hreads : ∀ body, p.Reads v body ↔ v.jsonBody = .ok body)
    (h : ∀ id body, (endpoint caller id body).Opens user (Passes checks body)) :
    (withIdAndBody raw endpoint caller v).Opens user (p.Admits m caller v) :=
  (opens_withIdAndBody h).congr (by simp [hasks.admits_iff, hreads])

theorem opens_profilePatch {endpoint : Caller → String → Value → Handler Reply}
    (hasks : p.Asks m (some raw) (some raw) (some checks))
    (hreads : ∀ body, p.Reads v body ↔ v.jsonBody = .ok body)
    (h : ∀ id body, (endpoint caller id body).Opens user (id = caller.userId ∧ Passes checks body)) :
    (withIdAndBody raw endpoint caller v).Opens user (p.Admits m caller v) :=
  (opens_withIdAndBody h).congr (by simp +contextual [hasks.admits_iff, hreads])

/-! Rows are listed and added at one place, and read, changed and deleted at another. -/

def collectionHandler? (list : Caller → Handler Reply) (create : Caller → Value → Handler Reply) :
    Method → Option Guarded
  | .get => some (plain list)
  | .post => some (withBody create)
  | _ => none

def rowHandler? (raw : String) (find delete : Caller → String → Handler Reply)
    (update : Caller → String → Value → Handler Reply) : Method → Option Guarded
  | .get => some (withId raw find)
  | .put => some (withIdAndBody raw update)
  | .delete => some (withId raw delete)
  | _ => none

variable {h : Guarded}

theorem opens_collection {list : Caller → Handler Reply} {create : Caller → Value → Handler Reply}
    (hh : collectionHandler? list create m = some h)
    (hasks : p.Asks m none none (if m = .post then some checks else none))
    (hreads : ∀ body, p.Reads v body ↔ v.jsonBody = .ok body) (hlist : (list caller).Opens user True)
    (hcreate : ∀ body, (create caller body).Opens user (Passes checks body)) :
    (h caller v).Opens user (p.Admits m caller v) := by
  cases m with
  | get =>
    cases hh
    exact opens_index hasks hlist
  | post =>
    cases hh
    exact opens_post hasks hreads hcreate
  | _ => cases hh

theorem opens_row {find delete : Caller → String → Handler Reply}
    {update : Caller → String → Value → Handler Reply}
    (hh : rowHandler? raw find delete update m = some h)
    (hasks : p.Asks m (some raw) none (if m = .put then some checks else none))
    (hreads : ∀ body, p.Reads v body ↔ v.jsonBody = .ok body)
    (hfind : ∀ id, (find caller id).Opens user True)
    (hdelete : ∀ id, (delete caller id).Opens user True)
    (hupdate : ∀ id body, (update caller id body).Opens user (Passes checks body)) :
    (h caller v).Opens user (p.Admits m caller v) := by
  cases m with
  | get =>
    cases hh
    exact opens_item hasks hfind
  | put =>
    cases hh
    exact opens_patch hasks hreads hupdate
  | delete =>
    cases hh
    exact opens_item hasks hdelete
  | _ => cases hh

end Shapes

/-! ## The handlers of a place -/

section Places

variable {m : Method} {h : Guarded} {caller : Caller} {v : Visit} {raw : String}

theorem opens_user (hh : userHandler? raw m = some h) :
    (h caller v).Opens (some caller.userId) ((user raw).Admits m caller v) := by
  cases m with
  | get =>
    cases hh
    apply opens_profile ⟨rfl, rfl, rfl, rfl⟩
    intro id
    apply opens_own (.users (.find caller.userId)) (g := fun row => [row])
    rintro rfl
    rfl
  | put =>
    cases hh
    apply opens_profilePatch ⟨rfl, rfl, rfl, rfl⟩ fun _ => Iff.rfl
    intro id body
    -- the patch is checked before it is known whose account it is for
    have hupdate : (User.Endpoint.update caller id body).Opens (some caller.userId)
        (Passes User.patchChecks body ∧ id = caller.userId) := by
      apply opens_checkOnly User.patchForm_tests
      apply opens_own (.users (.update caller.userId body)) (g := fun row => [row])
      rintro rfl
      rfl
    exact hupdate.congr and_comm
  | _ => cases hh

theorem opens_targets (hh : (userTargets raw).handler? m = some h) :
    (h caller v).Opens (some caller.userId) ((userTargets raw).Admits m caller v) := by
  cases m with
  | put =>
    cases hh
    apply opens_profilePatch ⟨rfl, rfl, rfl, rfl⟩ fun _ => Iff.rfl
    intro id body
    apply opens_ensureSelf
    rintro rfl
    have hreplace := (decides_form User.targetsForm body).andThen fun targets _ =>
      opens_answered (.users (.replaceTargets caller.userId targets)) rfl
        (f := fun _ => Reply.message "Targets updated successfully")
    exact hreplace.congr (by simp [User.targetsForm_tests.accepts_iff])
  | _ => cases hh

theorem opens_stats (hh : (userStats raw).handler? m = some h) :
    (h caller v).Opens (some caller.userId) ((userStats raw).Admits m caller v) := by
  cases m with
  | get =>
    cases hh
    apply opens_profile ⟨rfl, rfl, rfl, rfl⟩
    intro id
    apply opens_own (.users (.stats caller.userId)) (g := fun row => [row])
    rintro rfl
    rfl
  | _ => cases hh

theorem opens_companies (hh : companies.handler? m = some h) :
    (h caller v).Opens none (companies.Admits m caller v) := by
  have hcollection : collectionHandler? (fun _ => Company.Endpoint.list)
      (fun _ => Company.Endpoint.create) m = some h := by
    cases m <;> exact hh
  apply opens_collection hcollection ?_ (fun _ => Iff.rfl)
  · exact opens_listed (.companies .list)
  · exact fun body => opens_check Company.draftForm_tests Company.draftForm_completes fun draft =>
      opens_answered (.companies (.create draft)) rfl
  · cases m <;> exact ⟨rfl, rfl, rfl, rfl⟩

theorem opens_company (hh : (company raw).handler? m = some h) :
    (h caller v).Opens none ((company raw).Admits m caller v) := by
  cases m with
  | get =>
    cases hh
    exact opens_item ⟨rfl, rfl, rfl, rfl⟩ fun id => opens_answered (.companies (.find id)) rfl
  | _ => cases hh

theorem opens_applications (hh : applications.handler? m = some h) :
    (h caller v).Opens (some caller.userId) (applications.Admits m caller v) := by
  have hcollection : collectionHandler? Application.Endpoint.list
      Application.Endpoint.create m = some h := by
    cases m <;> exact hh
  apply opens_collection hcollection ?_ (fun _ => Iff.rfl)
  · exact opens_listed (.applications caller.userId .list)
  · exact fun body => opens_check Application.draftForm_tests Application.draftForm_completes fun draft =>
      opens_answered (.applications caller.userId (.create draft)) rfl
  · cases m <;> exact ⟨rfl, rfl, rfl, rfl⟩

theorem opens_application (hh : applicationHandler? raw m = some h) :
    (h caller v).Opens (some caller.userId) ((application raw).Admits m caller v) := by
  have hrow : rowHandler? raw Application.Endpoint.find Application.Endpoint.delete
      Application.Endpoint.update m = some h := hh
  apply opens_row hrow ?_ (fun _ => Iff.rfl)
  · exact fun id => opens_answered (.applications caller.userId (.find id)) rfl
  · exact fun id => opens_answered (.applications caller.userId (.delete id)) rfl
  · exact fun id body =>
      opens_checked (.applications caller.userId (.update id body)) Application.patchForm_tests rfl
  · cases m <;> exact ⟨rfl, rfl, rfl, rfl⟩

theorem opens_checklist (hh : checklist.handler? m = some h) :
    (h caller v).Opens (some caller.userId) (checklist.Admits m caller v) := by
  cases m with
  | get =>
    cases hh
    have hlist : (Checklist.Endpoint.list caller v.request.query?).Opens (some caller.userId)
        (∃ company, Checklist.companyFilter v.request.query? = .ok company ∧ True) :=
      (decides_companyFilter v.request.query?).andThen fun company _ =>
        opens_listed (.checklist caller.userId (.list company))
    have hreply := hlist.answer (f := fun reply => pure (HttpResponse.ofReply reply)) fun _ => ⟨_, rfl⟩
    exact hreply.congr (by simp [admits_iff, id?, account?, checks?, isFiltered])
  | post =>
    cases hh
    refine opens_post ⟨rfl, rfl, rfl, rfl⟩ (fun _ => Iff.rfl) fun body =>
      opens_check Checklist.draftForm_tests Checklist.draftForm_completes fun draft => ?_
    apply (opens_service (.checklist caller.userId (.post draft)) rfl).answer
    rintro (row | row) <;> exact ⟨_, rfl⟩
  | _ => cases hh

theorem opens_checklistItem (hh : checklistItemHandler? raw m = some h) :
    (h caller v).Opens (some caller.userId) ((checklistItem raw).Admits m caller v) := by
  have hrow : rowHandler? raw Checklist.Endpoint.find Checklist.Endpoint.delete
      Checklist.Endpoint.update m = some h := hh
  apply opens_row hrow ?_ (fun _ => Iff.rfl)
  · exact fun id => opens_answered (.checklist caller.userId (.find id)) rfl
  · exact fun id => opens_answered (.checklist caller.userId (.delete id)) rfl
  · exact fun id body =>
      opens_checked (.checklist caller.userId (.update id body)) Checklist.patchForm_tests rfl
  · cases m <;> exact ⟨rfl, rfl, rfl, rfl⟩

theorem opens_resumes (hh : resumes.handler? m = some h) :
    (h caller v).Opens (some caller.userId) (resumes.Admits m caller v) := by
  have hcollection : collectionHandler? Resume.Endpoint.list Resume.Endpoint.create m = some h := by
    cases m <;> exact hh
  apply opens_collection hcollection ?_ (fun _ => Iff.rfl)
  · exact opens_listed (.resumes caller.userId .list)
  · exact fun body => opens_check Resume.draftForm_tests Resume.draftForm_completes fun draft =>
      opens_answered (.resumes caller.userId (.create draft)) rfl
  · cases m <;> exact ⟨rfl, rfl, rfl, rfl⟩

theorem opens_resume (hh : resumeHandler? raw m = some h) :
    (h caller v).Opens (some caller.userId) ((resume raw).Admits m caller v) := by
  have hrow : rowHandler? raw Resume.Endpoint.find Resume.Endpoint.delete
      Resume.Endpoint.update m = some h := hh
  apply opens_row hrow ?_ (fun _ => Iff.rfl)
  · exact fun id => opens_answered (.resumes caller.userId (.find id)) rfl
  · exact fun id => opens_answered (.resumes caller.userId (.delete id)) rfl
  · exact fun id body =>
      opens_checked (.resumes caller.userId (.update id body)) Resume.patchForm_tests rfl
  · cases m <;> exact ⟨rfl, rfl, rfl, rfl⟩

theorem opens_resumeDownload (hh : (resumeDownload raw).handler? m = some h) :
    (h caller v).Opens (some caller.userId) ((resumeDownload raw).Admits m caller v) := by
  cases m with
  | get =>
    cases hh
    exact opens_download ⟨rfl, rfl, rfl, rfl⟩ fun id =>
      opens_answered (.resumes caller.userId (.download id)) rfl
  | _ => cases hh

theorem opens_tailor (hh : resumeTailor.handler? m = some h) :
    (h caller v).Opens (some caller.userId) (resumeTailor.Admits m caller v) := by
  cases m with
  | post =>
    cases hh
    exact opens_post ⟨rfl, rfl, rfl, rfl⟩ (fun _ => Iff.rfl) fun body =>
      opens_check Tailored.draftForm_tests Tailored.draftForm_completes fun draft =>
        opens_answered (.tailored caller.userId (.create draft)) rfl
  | _ => cases hh

theorem opens_tailoredResumes (hh : tailoredResumes.handler? m = some h) :
    (h caller v).Opens (some caller.userId) (tailoredResumes.Admits m caller v) := by
  cases m with
  | get =>
    cases hh
    exact opens_index ⟨rfl, rfl, rfl, rfl⟩ (opens_listed (.tailored caller.userId .list))
  | _ => cases hh

theorem opens_tailoredDownload (hh : (tailoredDownload raw).handler? m = some h) :
    (h caller v).Opens (some caller.userId) ((tailoredDownload raw).Admits m caller v) := by
  cases m with
  | get =>
    cases hh
    exact opens_download ⟨rfl, rfl, rfl, rfl⟩ fun id =>
      opens_answered (.tailored caller.userId (.download id)) rfl
  | _ => cases hh

theorem opens_uploaded (caller : Caller) (named : String × Bool) (file? : Option SentFile) :
    Opens (some caller.userId)
      (match file? with
        | none => refuse (.badRequest "File is required")
        | some file => do
          let fileName := file.fileName.getD (named.1 ++ ".pdf")
          return Reply.createdRow
            (← service (Resume.upload caller.userId named.1 fileName file.bytes named.2)))
      (file?.isSome = true) := by
  cases file? with
  | none => exact Refuses.opens ⟨_, rfl, by simp [ApiError.status]⟩ (by simp)
  | some file =>
    have hstored := opens_answered (.resumes caller.userId
      (.upload named.1 (file.fileName.getD (named.1 ++ ".pdf")) file.bytes named.2)) rfl
      (f := Reply.createdRow)
    exact hstored.congr (by simp)

theorem opens_upload (hh : resumeUpload.handler? m = some h) :
    (h caller v).Opens (some caller.userId) (resumeUpload.Admits m caller v) := by
  cases m with
  | post =>
    cases hh
    have hupload : (Resume.Endpoint.upload caller v).Opens (some caller.userId)
        (∃ body, resumeUpload.Reads v body ∧ Passes Resume.uploadChecks body) := by
      simp only [Resume.Endpoint.upload, Reads]
      cases v.boundary? with
      | none => exact Refuses.opens ⟨_, rfl, by simp⟩ (by simp)
      | some boundary =>
        have hsent := (decides_sentForm v boundary).andThen fun sent _ =>
          (decides_check Resume.uploadForm "Name is required" (.record sent.fields)).andThen fun named _ =>
            opens_uploaded caller named sent.file
        refine hsent.congr ?_
        simp only [Option.some.injEq, exists_and_right, Form.exists_some_iff Resume.uploadForm_tests
          Resume.uploadForm_completes]
        constructor
        · rintro ⟨sent, hsent, hpasses, hfile⟩
          exact ⟨_, ⟨boundary, sent, rfl, hsent, hfile, rfl⟩, hpasses⟩
        · rintro ⟨_, ⟨_, sent, rfl, hsent, hfile, rfl⟩, hpasses⟩
          exact ⟨sent, hsent, hpasses, hfile⟩
    have hreply := hupload.answer (f := fun reply => pure (HttpResponse.ofReply reply)) fun _ => ⟨_, rfl⟩
    exact hreply.congr (by simp [admits_iff, id?, account?, checks?, isFiltered])
  | _ => cases hh

theorem opens_sentChange {β : Type} {user : Option String} {H : Value → Prop}
    {rest : Value × Option ByteArray → Handler β} (hrest : ∀ sent, (rest sent).Opens user (H sent.1)) :
    (Tailored.Endpoint.sentChange v >>= rest).Opens user
      (∃ body, (tailoredResume raw).Reads v body ∧ H body) := by
  unfold Tailored.Endpoint.sentChange
  by_cases hparts : Tailored.isInParts v.request
  · simp only [hparts, if_true, Reads]
    cases v.boundary? with
    | none =>
      have hrefuses : Refuses (refuse (.badRequest Visit.missingBoundary) :
          Handler (Value × Option ByteArray)) := ⟨_, rfl, by simp [ApiError.status]⟩
      exact hrefuses.andThen.opens (by simp)
    | some boundary =>
      simp only [bind_assoc, pure_bind]
      have hopens := (decides_sentForm v boundary).andThen fun sent _ =>
        hrest (.record sent.fields, sent.file.map (·.bytes))
      refine hopens.congr ?_
      simp only [Option.some.injEq]
      constructor
      · rintro ⟨sent, hsent, hH⟩
        exact ⟨_, ⟨boundary, sent, rfl, hsent, rfl⟩, hH⟩
      · rintro ⟨_, ⟨_, sent, rfl, hsent, rfl⟩, hH⟩
        exact ⟨sent, hsent, hH⟩
  · simp only [hparts, Bool.false_eq_true, if_false, Reads, bind_assoc, pure_bind]
    exact (decides_json v).andThen fun body _ => hrest (body, none)

theorem opens_tailored (hh : tailoredHandler? raw m = some h) :
    (h caller v).Opens (some caller.userId) ((tailoredResume raw).Admits m caller v) := by
  cases m with
  | get =>
    cases hh
    exact opens_item ⟨rfl, rfl, rfl, rfl⟩ fun id =>
      opens_answered (.tailored caller.userId (.find id)) rfl
  | put =>
    cases hh
    have hupdate : ∀ id, (Tailored.Endpoint.update caller id v).Opens (some caller.userId)
        (∃ body, (tailoredResume raw).Reads v body ∧
          ∃ status, Tailored.statusForm.run body = .ok status ∧ True) := by
      intro id
      apply opens_sentChange
      rintro ⟨body, file⟩
      exact (decides_form Tailored.statusForm body).andThen fun status _ =>
        opens_answered (.tailored caller.userId (.update id ⟨file, status⟩)) rfl
    have hopens := (decides_pathId raw).andThen fun id _ =>
      (hupdate id).answer (f := fun reply => pure (HttpResponse.ofReply reply)) fun _ => ⟨_, rfl⟩
    exact hopens.congr (by
      simp [admits_iff, id?, account?, checks?, isFiltered, Tailored.statusForm_tests.accepts_iff])
  | delete =>
    cases hh
    exact opens_item ⟨rfl, rfl, rfl, rfl⟩ fun id =>
      opens_answered (.tailored caller.userId (.delete id)) rfl
  | _ => cases hh

theorem opens_handler {p : GuardedPlace} (caller : Caller) (v : Visit) (hh : p.handler? m = some h) :
    (h caller v).Opens (p.owner? caller.userId) (p.Admits m caller v) := by
  cases p with
  | user raw => exact opens_user hh
  | userTargets raw => exact opens_targets hh
  | userStats raw => exact opens_stats hh
  | companies => exact opens_companies hh
  | company raw => exact opens_company hh
  | applications => exact opens_applications hh
  | application raw => exact opens_application hh
  | checklist => exact opens_checklist hh
  | checklistItem raw => exact opens_checklistItem hh
  | resumes => exact opens_resumes hh
  | resumeUpload => exact opens_upload hh
  | resumeTailor => exact opens_tailor hh
  | tailoredResumes => exact opens_tailoredResumes hh
  | tailoredResume raw => exact opens_tailored hh
  | tailoredDownload raw => exact opens_tailoredDownload hh
  | resume raw => exact opens_resume hh
  | resumeDownload raw => exact opens_resumeDownload hh

end Places

end GuardedPlace
end JobTrail
