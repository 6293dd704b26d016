import JobTrail.Http.Handler
import JobTrail.Password
import JobTrail.User

/-! # Endpoints for users

Signing up, logging in, and one's own profile. A failed login tells nothing about why it failed, and a
profile is its owner's alone.
-/

namespace JobTrail.User

/-! ## Sessions -/

structure Signup where
  name : String
  email : String
  password : String
  university : String
  major : String
  graduationYear : Int
  weeklyGoal : Option Int
  linkedinProfile : Option String
deriving DecidableEq, Repr

def signupForm : Form (Option Signup) := do
  let name ← Form.check Rule.requiredText "name" "Name is required"
  let email ← Form.check Rule.email "email" "Valid email is required"
  let password ← Form.check (Rule.minLength minPasswordLength) "password"
    "Password must be at least 6 characters"
  let university ← Form.check Rule.requiredText "university" "University is required"
  let major ← Form.check Rule.requiredText "major" "Major is required"
  let graduationYear ← Form.check (Rule.intRange 2020 2030) "graduationYear"
    "Valid graduation year is required"
  let weeklyGoal ← Form.check (Rule.optionalIntRange 1 20) "weeklyGoal"
    "Weekly goal must be between 1 and 20"
  let linkedinProfile ← Form.filledText "linkedinProfile"
  return do
    some {
      name := ← name, email := ← email, password := ← password, university := ← university
      major := ← major, graduationYear := ← graduationYear, weeklyGoal, linkedinProfile }

structure Login where
  email : String
  password : String
deriving DecidableEq, Repr

def loginForm : Form (Option Login) := do
  let email ← Form.check Rule.email "email" "Valid email is required"
  let password ← Form.check (Rule.minLength 1) "password" "Password is required"
  return do some ⟨← email, ← password⟩

def session (v : Visit) (user : Record) (email : String) : Handler Record :=
  match (user.get? "id").bind Value.text? with
  | none => Handler.refuse (.internal "User row has no id")
  | some id =>
    match v.keys.issue? v.now id email with
    | none => Handler.refuse (AuthError.tokenGeneration "expiry out of range").toApi
    | some token => pure [("user", .record user.toCamel), ("token", .text token)]

def invalidCredentials : ApiError := .unauthorized "Invalid email or password"

/-- The stored password of a row; anything but a text matches nothing. -/
def storedPassword (row : Record) : String := ((row.get? "password_hash").bind Value.text?).getD ""

/-! ## Profiles -/

def patchForm : Form Unit := do
  let _ ← Form.check Rule.optionalText "name" "Name cannot be empty"
  let _ ← Form.check Rule.optionalText "university" "University cannot be empty"
  let _ ← Form.check Rule.optionalText "major" "Major cannot be empty"
  let _ ← Form.check (Rule.optionalIntRange 2020 2030) "graduationYear"
    "Valid graduation year is required"
  let _ ← Form.check (Rule.optionalIntRange 1 20) "weeklyGoal" "Weekly goal must be between 1 and 20"

/-- New target lists. Null empties a list, and a list that is absent stays. -/
def targetsForm : Form Targets := do
  let companies ← Form.check Rule.optionalTexts "targetCompanies" "Must be a list of company ids"
  let roles ← Form.check Rule.optionalTexts "targetRoles" "Must be a list of strings"
  let industries ← Form.check Rule.optionalTexts "targetIndustries" "Must be a list of strings"
  let locations ← Form.check Rule.optionalTexts "targetLocations" "Must be a list of strings"
  return { companies, roles, industries, locations }

def ensureSelf (caller : Caller) (id : String) : Handler Unit :=
  if id = caller.userId then pure () else Handler.refuse (.forbidden "Unauthorized")

namespace Endpoint

def signup (v : Visit) : Handler Reply := do
  let s ← Handler.check signupForm "Invalid signup" (← v.json)
  if ← Handler.service (User.emailTaken s.email) then
    Handler.refuse (.conflict emailTakenMessage)
  let salt ← ExceptT.lift (Task.perform .freshSalt)
  let user ← Handler.service (User.create {
    name := s.name, email := s.email, passwordHash := hashPassword salt s.password
    university := s.university, major := s.major, graduationYear := s.graduationYear
    linkedinProfile := s.linkedinProfile, weeklyGoal := s.weeklyGoal })
  return Reply.created (.record (← session v user s.email))

def login (v : Visit) : Handler Reply := do
  let l ← Handler.check loginForm "Invalid login" (← v.json)
  match ← Handler.service (User.credentials l.email) with
  | none => Handler.refuse invalidCredentials
  | some row =>
    if verifyPassword l.password (storedPassword row) then
      return Reply.ok (.record (← session v (row.erase "password_hash") l.email))
    else Handler.refuse invalidCredentials

def find (caller : Caller) (id : String) : Handler Reply := do
  ensureSelf caller id
  return Reply.row (← Handler.service (User.find id))

def update (caller : Caller) (id : String) (body : Value) : Handler Reply := do
  Handler.checkOnly patchForm body
  ensureSelf caller id
  return Reply.row (← Handler.service (User.update id body))

def replaceTargets (caller : Caller) (id : String) (body : Value) : Handler Reply := do
  ensureSelf caller id
  let targets ← Handler.ofExcept (targetsForm.run body)
  Handler.service (User.replaceTargets id targets)
  return Reply.message "Targets updated successfully"

def stats (caller : Caller) (id : String) : Handler Reply := do
  ensureSelf caller id
  return Reply.row (← Handler.service (User.stats id))

end Endpoint
end JobTrail.User
