import JobTrail.Form
import JobTrail.Http.Multipart
import JobTrail.Service
import JobTrail.Token
import JobTrail.Value.Reader.Leading

/-! # Handlers

What an endpoint does with a request: read its parts, check them, call a service, and answer. The
first refusal ends a handler.
-/

namespace JobTrail

inductive Refusal where
  | api (e : ApiError)
  /-- The request cannot be taken apart; answered in plain text. -/
  | malformed (message : String)
deriving DecidableEq, Repr

def Refusal.response : Refusal → HttpResponse
  | api e => .ofError e
  | malformed message => .text 400 message

abbrev Handler (α : Type) := ExceptT Refusal Task α

structure Caller where
  userId : String
  email : String
deriving DecidableEq, Repr

structure Visit where
  request : HttpRequest
  /-- A body may have this many bytes. -/
  bodyLimit : Nat
  keys : TokenKeys
  /-- Seconds since 1970-01-01. -/
  now : Int

namespace Handler

def refuse (e : ApiError) : Handler α := throw (.api e)

def ofExcept : Except ApiError α → Handler α
  | .ok a => pure a
  | .error e => refuse e

def service (s : Service α) : Handler α :=
  ExceptT.mk do return (← s.run).mapError fun e => .api e.toApi

/-- Checks a body. The fallback stands for a form that accepts a body without giving a value. -/
def check (form : Form (Option α)) (fallback : String) (body : Value) : Handler α := do
  match ← ofExcept (form.run body) with
  | some a => return a
  | none => refuse (.badRequest fallback)

def checkOnly (form : Form Unit) (body : Value) : Handler Unit := ofExcept (form.run body)

def pathId (raw : String) : Handler String :=
  match Percent.decodeText? raw with
  | some id => pure id
  | none => throw (.malformed "Invalid URL: Invalid UTF-8 in `id`")

end Handler

namespace Visit

/-- The value of a JSON body. What follows the value is not looked at. -/
def jsonBody (v : Visit) : Except ApiError Value :=
  if ¬ v.request.mediaType?.any MediaType.isJson then
    .error (.invalidJson "Expected request with `Content-Type: application/json`")
  else if v.bodyLimit < v.request.body.size then
    .error (.payloadTooLarge "Failed to buffer the request body: length limit exceeded")
  else
    match Json.readLeadingBytes? v.request.body with
    | some data => .ok data
    | none => .error (.invalidJson "Failed to parse the request body as JSON")

def json (v : Visit) : Handler Value := Handler.ofExcept v.jsonBody

def missingBoundary : String := "Invalid `boundary` for `multipart/form-data` request"

def boundary? (v : Visit) : Option String := v.request.mediaType?.bind MediaType.boundary?

def sentForm (v : Visit) (boundary : String) : Handler SentForm :=
  let parts := if v.bodyLimit < v.request.body.size then .error .unreadable
    else Multipart.parts boundary v.request.body.data.toList
  match parts with
  | .ok parts => pure (.ofParts parts)
  | .error e => Handler.refuse (.badRequest e.message)

end Visit
end JobTrail
