import JobTrail.Service

/-! # Users

Accounts with their profile and the lists of what they aim for. A profile never holds the stored
password; only the look-up for a login reads it.
-/

namespace JobTrail.User

def fields : List String :=
  ["name", "university", "major", "graduation_year", "linkedin_profile", "weekly_goal"]

def defaultWeeklyGoal : Int := 5

def missing : String := "User not found"

def emailTakenMessage : String := "User with this email already exists"

def profileColumns : String :=
  ("id, name, email, linkedin_profile, university, major, graduation_year, resume_uri, weekly_goal, "
   ++ "created_at, updated_at")

structure Draft where
  name : String
  email : String
  passwordHash : String
  university : String
  major : String
  graduationYear : Int
  linkedinProfile : Option String
  weeklyGoal : Option Int
deriving DecidableEq, Repr

/-- New target lists; a list that is not given stays. -/
structure Targets where
  companies : Option (List String)
  roles : Option (List String)
  industries : Option (List String)
  locations : Option (List String)
deriving DecidableEq, Repr

structure TargetTable where
  table : String
  column : String
  cast : String
deriving DecidableEq, Repr

def companyTargets : TargetTable := ⟨"user_target_companies", "company_id", "::uuid"⟩
def roleTargets : TargetTable := ⟨"user_target_roles", "role", ""⟩
def industryTargets : TargetTable := ⟨"user_target_industries", "industry", ""⟩
def locationTargets : TargetTable := ⟨"user_target_locations", "location", ""⟩

def updateTemplate : UpdateTemplate where
  table := "users"
  allow := fields
  casts := [("graduation_year", "int"), ("weekly_goal", "int")]
  scope := [⟨"id", some "uuid"⟩]
  returning := profileColumns

def emailTaken (email : String) : Service Bool := do
  let rows ← Service.execute "SELECT id FROM users WHERE email = $1" [.text email]
  return !rows.isEmpty

/-- Adds a user. A signup that lost the race for an email is told so. -/
def create (draft : Draft) : Service Record := do
  let id ← Service.freshId
  let rows ← tryCatch
    (Service.execute
      ("INSERT INTO users "
       ++ "(id, name, email, password_hash, university, major, graduation_year, "
       ++ "linkedin_profile, weekly_goal) "
       ++ "VALUES ($1::uuid, $2, $3, $4, $5, $6, $7::int, $8, $9::int) "
       ++ "RETURNING id, name, email, university, major, graduation_year, linkedin_profile, "
       ++ "weekly_goal, created_at")
      [id, .text draft.name, .text draft.email, .text draft.passwordHash,
        .text draft.university, .text draft.major, .ofInt draft.graduationYear,
        .ofText? draft.linkedinProfile, .ofInt (draft.weeklyGoal.getD defaultWeeklyGoal)])
    fun
      | .database (.duplicate _) => throw (.conflict emailTakenMessage)
      | e => throw e
  Service.first rows missing

def credentials (email : String) : Service (Option Record) := do
  let rows ← Service.execute
    ("SELECT id, name, email, password_hash, university, major, graduation_year, "
     ++ "linkedin_profile, weekly_goal, created_at FROM users WHERE email = $1")
    [.text email]
  return rows.head?

def columnOf (rows : List Record) (name : String) : Value := .sequence (rows.map (·.column name))

def find (id : String) : Service Record := do
  let rows ← Service.execute ("SELECT " ++ profileColumns ++ " FROM users WHERE id = $1::uuid") [.text id]
  let user ← Service.first rows missing
  let companies ← Service.execute
    ("SELECT company_id FROM user_target_companies WHERE user_id = $1::uuid "
     ++ "ORDER BY priority DESC, added_at ASC")
    [.text id]
  let roles ← Service.execute "SELECT role FROM user_target_roles WHERE user_id = $1::uuid" [.text id]
  let industries ← Service.execute
    "SELECT industry FROM user_target_industries WHERE user_id = $1::uuid" [.text id]
  let locations ← Service.execute
    "SELECT location FROM user_target_locations WHERE user_id = $1::uuid" [.text id]
  return (((user.insert "target_companies" (columnOf companies "company_id")).insert
    "target_roles" (columnOf roles "role")).insert
    "target_industries" (columnOf industries "industry")).insert
    "target_locations" (columnOf locations "location")

def update (id : String) (patch : Value) : Service Record := do
  let statement ← Service.compile updateTemplate [.text id] patch
  let rows ← Service.execute statement.sql statement.params
  Service.first rows missing

/-- Replaces one list, if it is given: the old rows go, then the new ones come one at a time. -/
def replaceList (id : String) (t : TargetTable) : Option (List String) → Service Unit
  | none => pure ()
  | some values => do
    let _ ← Service.execute ("DELETE FROM " ++ t.table ++ " WHERE user_id = $1::uuid") [.text id]
    values.forM fun value => do
      let _ ← Service.execute
        ("INSERT INTO " ++ t.table ++ " (user_id, " ++ t.column ++ ") VALUES ($1::uuid, $2" ++ t.cast
          ++ ") ON CONFLICT DO NOTHING")
        [.text id, .text value]

def replaceTargets (id : String) (targets : Targets) : Service Unit := do
  replaceList id companyTargets targets.companies
  replaceList id roleTargets targets.roles
  replaceList id industryTargets targets.industries
  replaceList id locationTargets targets.locations

def stats (id : String) : Service Record := do
  let rows ← Service.execute "SELECT * FROM user_dashboard_stats WHERE user_id = $1::uuid" [.text id]
  Service.first rows "Stats not found"

end JobTrail.User
