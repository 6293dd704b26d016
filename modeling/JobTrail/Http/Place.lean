import JobTrail.Application.Endpoints
import JobTrail.Checklist.Endpoints
import JobTrail.Company.Endpoints
import JobTrail.Resume.Endpoints
import JobTrail.User.Endpoints

/-! # Places

The paths of the interface and what each method does there. An id in a path is any segment, but an
empty one only in the middle of a path; a fixed segment wins over an id. Ids stand here as they are
written in the path. Whoever calls a guarded place has to show a token first.
-/

namespace JobTrail

inductive OpenPlace where
  | health
  | signup
  | login
deriving DecidableEq, Repr

inductive GuardedPlace where
  | user (id : String)
  | userTargets (id : String)
  | userStats (id : String)
  | companies
  | company (id : String)
  | applications
  | application (id : String)
  | checklist
  | checklistItem (id : String)
  | resumes
  | resumeUpload
  | resumeTailor
  | tailoredResumes
  | tailoredResume (id : String)
  | tailoredDownload (id : String)
  | resume (id : String)
  | resumeDownload (id : String)
deriving DecidableEq, Repr

namespace OpenPlace

def ofSegments? : List String → Option OpenPlace
  | ["health"] => some health
  | ["api", "auth", "signup"] => some signup
  | ["api", "auth", "login"] => some login
  | _ => none

def reportHealth (v : Visit) : Handler HttpResponse := do
  let found ← ExceptT.lift (Task.perform (.execute ⟨"SELECT 1", []⟩))
  let (status, database, code) := match found with
    | .ok _ => ("ok", "ok", 200)
    | .error _ => ("degraded", "unavailable", 503)
  return .json code (.record [("status", .text status), ("timestamp", .text (Instant.iso ⟨v.now, 0⟩)),
    ("database", .text database)])

def handler? : OpenPlace → Method → Option (Visit → Handler HttpResponse)
  | health, .get => some reportHealth
  | signup, .post => some fun v => return .ofReply (← User.Endpoint.signup v)
  | login, .post => some fun v => return .ofReply (← User.Endpoint.login v)
  | _, _ => none

end OpenPlace

namespace GuardedPlace

def ofSegments? : List String → Option GuardedPlace
  | ["api", "companies"] => some companies
  | ["api", "applications"] => some applications
  | ["api", "checklist"] => some checklist
  | ["api", "resumes"] => some resumes
  | ["api", "resumes", "upload"] => some resumeUpload
  | ["api", "resumes", "tailor"] => some resumeTailor
  | ["api", "resumes", "tailored"] => some tailoredResumes
  | ["api", "resumes", "tailored", id] => if id = "" then none else some (tailoredResume id)
  | ["api", "resumes", "tailored", id, "download"] => some (tailoredDownload id)
  | ["api", "resumes", id, "download"] => some (resumeDownload id)
  | ["api", "resumes", id] => if id = "" then none else some (resume id)
  | ["api", "users", id, "targets"] => some (userTargets id)
  | ["api", "users", id, "stats"] => some (userStats id)
  | ["api", "users", id] => if id = "" then none else some (user id)
  | ["api", "companies", id] => if id = "" then none else some (company id)
  | ["api", "applications", id] => if id = "" then none else some (application id)
  | ["api", "checklist", id] => if id = "" then none else some (checklistItem id)
  | _ => none

abbrev Guarded := Caller → Visit → Handler HttpResponse

def plain (endpoint : Caller → Handler Reply) : Guarded := fun caller _ =>
  return .ofReply (← endpoint caller)

def withBody (endpoint : Caller → Value → Handler Reply) : Guarded := fun caller v => do
  return .ofReply (← endpoint caller (← v.json))

def withId (raw : String) (endpoint : Caller → String → Handler Reply) : Guarded := fun caller _ => do
  return .ofReply (← endpoint caller (← Handler.pathId raw))

def withIdAndBody (raw : String) (endpoint : Caller → String → Value → Handler Reply) : Guarded :=
  fun caller v => do
    let id ← Handler.pathId raw
    return .ofReply (← endpoint caller id (← v.json))

def download (raw : String) (endpoint : Caller → String → Handler HttpResponse) : Guarded :=
  fun caller _ => do endpoint caller (← Handler.pathId raw)

def userHandler? (id : String) : Method → Option Guarded
  | .get => some (withId id User.Endpoint.find)
  | .put => some (withIdAndBody id User.Endpoint.update)
  | _ => none

def applicationHandler? (id : String) : Method → Option Guarded
  | .get => some (withId id Application.Endpoint.find)
  | .put => some (withIdAndBody id Application.Endpoint.update)
  | .delete => some (withId id Application.Endpoint.delete)
  | _ => none

def checklistItemHandler? (id : String) : Method → Option Guarded
  | .get => some (withId id Checklist.Endpoint.find)
  | .put => some (withIdAndBody id Checklist.Endpoint.update)
  | .delete => some (withId id Checklist.Endpoint.delete)
  | _ => none

def resumeHandler? (id : String) : Method → Option Guarded
  | .get => some (withId id Resume.Endpoint.find)
  | .put => some (withIdAndBody id Resume.Endpoint.update)
  | .delete => some (withId id Resume.Endpoint.delete)
  | _ => none

def tailoredHandler? (id : String) : Method → Option Guarded
  | .get => some (withId id Tailored.Endpoint.find)
  | .put => some fun caller v => do
    let id ← Handler.pathId id
    return .ofReply (← Tailored.Endpoint.update caller id v)
  | .delete => some (withId id Tailored.Endpoint.delete)
  | _ => none

def handler? (place : GuardedPlace) (method : Method) : Option Guarded :=
  match place, method with
  | user id, m => userHandler? id m
  | userTargets id, .put => some (withIdAndBody id User.Endpoint.replaceTargets)
  | userStats id, .get => some (withId id User.Endpoint.stats)
  | companies, .get => some (plain fun _ => Company.Endpoint.list)
  | companies, .post => some (withBody fun _ => Company.Endpoint.create)
  | company id, .get => some (withId id fun _ => Company.Endpoint.find)
  | applications, .get => some (plain Application.Endpoint.list)
  | applications, .post => some (withBody Application.Endpoint.create)
  | application id, m => applicationHandler? id m
  | checklist, .get => some fun caller v =>
    return .ofReply (← Checklist.Endpoint.list caller v.request.query?)
  | checklist, .post => some (withBody Checklist.Endpoint.post)
  | checklistItem id, m => checklistItemHandler? id m
  | resumes, .get => some (plain Resume.Endpoint.list)
  | resumes, .post => some (withBody Resume.Endpoint.create)
  | resumeUpload, .post => some fun caller v => return .ofReply (← Resume.Endpoint.upload caller v)
  | resumeTailor, .post => some (withBody Tailored.Endpoint.create)
  | tailoredResumes, .get => some (plain Tailored.Endpoint.list)
  | tailoredResume id, m => tailoredHandler? id m
  | tailoredDownload id, .get => some (download id Tailored.Endpoint.download)
  | resume id, m => resumeHandler? id m
  | resumeDownload id, .get => some (download id Resume.Endpoint.download)
  | _, _ => none

end GuardedPlace

inductive Place where
  | unguarded (p : OpenPlace)
  | guarded (p : GuardedPlace)
deriving DecidableEq, Repr

namespace Place

def segments? (path : String) : Option (List String) :=
  match BlobPath.segments path with
  | "" :: rest => some rest
  | _ => none

def ofPath? (path : String) : Option Place := do
  let segments ← segments? path
  match OpenPlace.ofSegments? segments with
  | some p => some (unguarded p)
  | none => (GuardedPlace.ofSegments? segments).map guarded

def hasHandler : Place → Method → Bool
  | unguarded p, m => (p.handler? m).isSome
  | guarded p, m => (p.handler? m).isSome

/-- The methods of a place, as an answer lists them: where there is GET there is HEAD. -/
def allow (p : Place) : String :=
  ",".intercalate ([Method.get, .post, .put, .delete].flatMap fun m =>
    if ¬ p.hasHandler m then [] else if m = .get then ["GET", "HEAD"] else [m.name])

end Place
end JobTrail
