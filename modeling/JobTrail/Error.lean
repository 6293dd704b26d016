import JobTrail.Database.Update

/-! # Errors

What can go wrong, by cause, and the answer a client gets for it. A client never sees the text of a
database or storage fault, only its class.
-/

namespace JobTrail

inductive DatabaseError where
  | invalidUrl
  /-- A unique constraint was violated; the text is the server's. -/
  | duplicate (text : String)
  /-- The database cannot be reached. -/
  | unavailable
  /-- A statement failed for any other reason. -/
  | failed
deriving DecidableEq, Repr

def DatabaseError.message : DatabaseError → String
  | invalidUrl => "Invalid database URL"
  | duplicate text => "Duplicate value: " ++ text
  | unavailable => "database unavailable"
  | failed => "statement failed"

inductive BlobError where
  | invalidPath (path : String)
  | io
deriving DecidableEq, Repr

inductive AuthError where
  | missingSecret
  | tokenGeneration (cause : String)
  | invalidToken
  | hashingFailed
  | taskFailed (cause : String)
deriving DecidableEq, Repr

def AuthError.message : AuthError → String
  | missingSecret => "JWT secret is not configured"
  | tokenGeneration cause => "JWT generation error: " ++ cause
  | invalidToken => "Invalid or expired token"
  | hashingFailed => "Password hashing failed"
  | taskFailed cause => "Password task failed: " ++ cause

inductive ServiceError where
  | database (e : DatabaseError)
  | update (e : UpdateError)
  | blob (e : BlobError)
  | notFound (message : String)
  | conflict (message : String)
  /-- A well-formed request that the current data refuses. -/
  | rejected (message : String)
deriving DecidableEq, Repr

/-- Messages by field name, in the byte order of the names. -/
abbrev FieldErrors := List (String × String)

def FieldErrors.note : FieldErrors → String → String → FieldErrors
  | [], key, message => [(key, message)]
  | (k, m) :: rest, key, message =>
    if key = k then (k, m) :: rest
    else if key < k then (key, message) :: (k, m) :: rest
    else (k, m) :: note rest key message

inductive ApiError where
  | badRequest (message : String)
  | validation (message : String) (fields : Option FieldErrors)
  | invalidJson (message : String)
  | unauthorized (message : String)
  | forbidden (message : String)
  | notFound (message : String)
  | conflict (message : String)
  | payloadTooLarge (message : String)
  | internal (message : String)
  | unavailable (message : String)
deriving DecidableEq, Repr

namespace ApiError

def status : ApiError → Nat
  | badRequest _ | validation .. | invalidJson _ => 400
  | unauthorized _ => 401
  | forbidden _ => 403
  | notFound _ => 404
  | conflict _ => 409
  | payloadTooLarge _ => 413
  | internal _ => 500
  | unavailable _ => 503

def message : ApiError → String
  | badRequest m | validation m _ | invalidJson m | unauthorized m | forbidden m | notFound m
  | conflict m | payloadTooLarge m | internal m | unavailable m => m

def code : ApiError → String
  | badRequest _ => "BAD_REQUEST"
  | validation .. => "VALIDATION_ERROR"
  | invalidJson _ => "INVALID_JSON"
  | unauthorized _ => "UNAUTHORIZED"
  | forbidden _ => "FORBIDDEN"
  | notFound _ => "NOT_FOUND"
  | conflict _ => "CONFLICT"
  | payloadTooLarge _ => "PAYLOAD_TOO_LARGE"
  | internal _ => "INTERNAL_SERVER_ERROR"
  | unavailable _ => "SERVICE_UNAVAILABLE"

def fieldErrors? : ApiError → Option FieldErrors
  | validation _ fields => fields
  | _ => none

def body (e : ApiError) : Value :=
  let fields := match e.fieldErrors? with
    | some fields => [("fieldErrors", Value.record (fields.map fun (k, m) => (k, .text m)))]
    | none => []
  .record ([("error", .text e.message), ("code", .text e.code)] ++ fields)

end ApiError

def DatabaseError.toApi : DatabaseError → ApiError
  | unavailable => .unavailable "Database temporarily unavailable"
  | duplicate _ => .conflict "Resource already exists"
  | invalidUrl | failed => .internal "Database error occurred"

def UpdateError.toApi (e : UpdateError) : ApiError := .badRequest e.message

def AuthError.toApi : AuthError → ApiError
  | invalidToken => .unauthorized AuthError.invalidToken.message
  | _ => .internal "Authentication service error"

def BlobError.toApi : BlobError → ApiError
  | invalidPath path => .badRequest ("Invalid file path: " ++ path)
  | io => .internal "A storage error occurred"

def ServiceError.toApi : ServiceError → ApiError
  | database e => e.toApi
  | update e => e.toApi
  | blob e => e.toApi
  | notFound m => .notFound m
  | conflict m => .conflict m
  | rejected m => .badRequest m

end JobTrail
