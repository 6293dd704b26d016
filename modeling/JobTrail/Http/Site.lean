import JobTrail.Http.Origins
import JobTrail.Http.Place
import JobTrail.Http.Uploads
import JobTrail.Settings

/-! # The site

The whole interface: a request goes to its place, past the gate if the place is guarded, and every
answer gets the headers that browsers want to see. The token is looked at before anything else of a
request, so nothing is stored or fetched for a caller without one.
-/

namespace JobTrail

structure Site where
  keys : TokenKeys
  bodyLimit : Nat
  origins : Origins
  /-- Where stored files are served. -/
  publicPath : String

inductive SiteError where
  | auth (e : AuthError)
  /-- A star among the origins, or a public path that does not start with a slash. -/
  | unusable
deriving DecidableEq, Repr

namespace Site

def ofSettings (s : Settings) : Except SiteError Site :=
  match TokenKeys.ofSecret s.security.secret s.security.lifetimeSecs with
  | .error e => .error (.auth e)
  | .ok keys =>
    let publicPath := if s.uploads.publicPath = "" then "/" else s.uploads.publicPath
    match Origins.ofList? s.security.origins with
    | some origins =>
      if publicPath.startsWith "/" then .ok ⟨keys, s.api.maxRequestBytes, origins, publicPath⟩
      else .error .unusable
    | none => .error .unusable

/-! ## The gate -/

def after? (front s : String) : Option String :=
  (BlobPath.stripFront front.toList s.toList).map String.ofList

def bearer? (r : HttpRequest) : Option String :=
  (((r.plainHeader? "authorization").bind (after? "Bearer ")).map trimBlank).filter (· ≠ "")

def authenticate (site : Site) (now : Int) (r : HttpRequest) : Except ApiError Caller :=
  match bearer? r with
  | none => .error (.unauthorized "No token provided")
  | some token =>
    match site.keys.verify now token with
    | .ok claims => .ok ⟨claims.userId, claims.email⟩
    | .error e => .error e.toApi

/-! ## Answers -/

def finish (h : Handler HttpResponse) : Task HttpResponse := do
  match ← h.run with
  | .ok response => return response
  | .error refusal => return refusal.response

def guard (site : Site) (now : Int) (r : HttpRequest) (next : Caller → Handler HttpResponse) :
    Task HttpResponse :=
  match site.authenticate now r with
  | .error e => return .ofError e
  | .ok caller => finish (next caller)

/-- The method whose handler answers: a request for the headers alone goes where GET goes. -/
def servedMethod : Method → Method
  | .head => .get
  | m => m

def trim (method : Method) (response : HttpResponse) : HttpResponse :=
  if method = .head then { response with body := .empty } else response

def methodNotAllowed : HttpResponse := .bare 405

def visit (site : Site) (now : Int) (r : HttpRequest) : Visit :=
  ⟨r, site.bodyLimit, site.keys, now⟩

def atPlace (site : Site) (now : Int) (r : HttpRequest) (place : Place) : Task HttpResponse :=
  let v := site.visit now r
  match place with
  | .unguarded p =>
    match p.handler? (servedMethod r.method) with
    | some h => return trim r.method (← finish (h v))
    | none => return methodNotAllowed.setHeader "allow" place.allow
  | .guarded p =>
    match p.handler? (servedMethod r.method) with
    | some h => return trim r.method (← site.guard now r fun caller => h caller v)
    | none =>
      return (← site.guard now r fun _ => pure methodNotAllowed).setHeader "allow" place.allow

def routeNotFound : HttpResponse := .json 404 (.record [("error", .text "Route not found")])

def hardened (response : HttpResponse) : HttpResponse :=
  (response.setHeader "x-content-type-options" "nosniff").setHeader "x-frame-options" "SAMEORIGIN"

def shared (site : Site) (r : HttpRequest) (response : HttpResponse) : HttpResponse :=
  { response with headers := response.headers ++ site.origins.sharing (r.headers.get? "origin") }

def respond (site : Site) (now : Int) (r : HttpRequest) : Task HttpResponse := do
  let place := Place.ofPath? r.path
  if r.method = .options then
    let answer := site.origins.preflight (r.headers.get? "origin")
    return (place.map fun p => answer.setHeader "allow" p.allow).getD answer
  let response ← match place, Uploads.below? site.publicPath r.path with
    | some p, _ => site.atPlace now r p
    | none, some below => Uploads.serve r.method below r.query?
    | none, none => pure routeNotFound
  return site.shared r (hardened response)

end Site
end JobTrail
