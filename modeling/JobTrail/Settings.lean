import JobTrail.Text.Blank
import JobTrail.Text.Integer
import JobTrail.Url

/-! # Settings

The settings of the service: defaults by environment, each overridden by its variable. Variables are
read in a fixed order, so the first bad one is the one reported. In production the secret has to
differ from the development one.
-/

namespace JobTrail

inductive Environment where
  | development
  | staging
  | production
deriving DecidableEq, Repr

/-- The environment that `APP_ENV` names; anything else is development. -/
def Environment.ofName : Option String → Environment
  | some "production" | some "prod" => production
  | some "staging" | some "stage" => staging
  | _ => development

structure ServerSettings where
  host : String
  port : Nat
deriving DecidableEq, Repr

structure DatabaseSettings where
  /-- A full connection string, which takes the place of the single fields. -/
  url : Option String
  host : String
  port : Nat
  name : String
  user : String
  password : String
  ssl : Bool
  maxConnections : Nat
  connectionTimeoutMs : Nat
  idleTimeoutSecs : Nat
  queryLogging : Bool
  slowQueryMs : Nat
deriving DecidableEq, Repr

structure ApiSettings where
  requestLogging : Bool
  maxRequestBytes : Nat
deriving DecidableEq, Repr

structure SecuritySettings where
  secret : String
  lifetimeSecs : Int
  /-- Without any, every origin is echoed. -/
  origins : List String
deriving DecidableEq, Repr

structure UploadSettings where
  dir : String
  publicPath : String
deriving DecidableEq, Repr

structure Settings where
  environment : Environment
  server : ServerSettings
  database : DatabaseSettings
  api : ApiSettings
  security : SecuritySettings
  uploads : UploadSettings
deriving DecidableEq, Repr

inductive SettingsError where
  | insecureSecret
  | invalidValue (key raw : String)
deriving DecidableEq, Repr

def SettingsError.message : SettingsError → String
  | insecureSecret => "JWT_SECRET must be set in production"
  | invalidValue key raw => "Invalid value for " ++ key ++ ": " ++ raw

/-! ## Lifetimes -/

def unitSeconds? : Char → Option Int
  | 's' => some 1
  | 'm' => some 60
  | 'h' => some 3600
  | 'd' => some 86400
  | _ => none

/-- The digits of a lifetime and its unit; without a letter at the end the unit is the second. -/
def splitUnit (cs : List Char) : List Char × Char :=
  match cs.getLast? with
  | some c => if c.isAlpha then (cs.dropLast, c) else (cs, 's')
  | none => (cs, 's')

/-- Reads `7d`, `12h`, `30m`, `45s` or bare seconds: a positive number of seconds in 64 bits. -/
def parseLifetime? (s : String) : Option Int := do
  let (digits, unit) := splitUnit (trimChars s.toList)
  let amount ← readInt64? digits
  let factor ← unitSeconds? unit
  let seconds := amount * factor
  if fitsInt64 seconds ∧ 0 < seconds then some seconds else none

/-! ## Defaults -/

namespace Settings

def developmentSecret : String := "your-secret-key-change-this"

def defaultDatabase : DatabaseSettings where
  url := none
  host := "localhost"
  port := 5432
  name := "poros"
  user := "postgres"
  password := ""
  ssl := false
  maxConnections := 20
  connectionTimeoutMs := 2000
  idleTimeoutSecs := 30
  queryLogging := true
  slowQueryMs := 100

def development : Settings where
  environment := .development
  server := ⟨"0.0.0.0", 3000⟩
  database := defaultDatabase
  api := ⟨true, 10 * 1024 * 1024⟩
  security := ⟨developmentSecret, 7 * 24 * 3600, []⟩
  uploads := ⟨"uploads", "/uploads"⟩

def staging : Settings :=
  { development with
    environment := .staging
    database := { defaultDatabase with slowQueryMs := 500 }
    api := ⟨true, 5 * 1024 * 1024⟩ }

def production : Settings :=
  { development with
    environment := .production
    database := { defaultDatabase with queryLogging := false, slowQueryMs := 1000 }
    api := ⟨false, 5 * 1024 * 1024⟩ }

def defaults : Environment → Settings
  | .development => development
  | .staging => staging
  | .production => production

/-! ## Variables -/

abbrev Variables := String → Option String

def override (vars : Variables) (key : String) (parse : String → Option α) (default : α) :
    Except SettingsError α :=
  match vars key with
  | none => .ok default
  | some raw =>
    match parse raw with
    | some v => .ok v
    | none => .error (.invalidValue key raw)

def parseNat (limit : Nat) (raw : String) : Option Nat := readUpTo? limit (trimChars raw.toList)

def parseBool (raw : String) : Option Bool :=
  match trimBlank raw with
  | "true" => some true
  | "false" => some false
  | _ => none

def limit16 : Nat := 65535
def limit32 : Nat := 4294967295
def limit64 : Nat := 18446744073709551615

/-- Hosted databases want TLS unless it is switched off by name. -/
def tls (vars : Variables) (default : Bool) : Bool :=
  match vars "DATABASE_URL", vars "DB_SSL" with
  | some _, ssl => ssl ≠ some "false"
  | none, some ssl => ssl = "true"
  | none, none => default

def parseOrigins (raw : String) : List String :=
  ((raw.toList.splitOn ',').map fun piece => String.ofList (trimChars piece)).filter (· ≠ "")

def variableNames : List String :=
  ["APP_ENV", "HOST", "PORT", "DATABASE_URL", "DB_HOST", "DB_PORT", "DB_NAME", "DB_USER",
    "DB_PASSWORD", "DB_SSL", "DATABASE_MAX_CONNECTIONS", "DATABASE_CONNECTION_TIMEOUT_MS",
    "DATABASE_IDLE_TIMEOUT_SECS", "DATABASE_ENABLE_QUERY_LOGGING",
    "DATABASE_SLOW_QUERY_THRESHOLD_MS", "API_ENABLE_REQUEST_LOGGING",
    "API_MAX_REQUEST_SIZE_BYTES", "JWT_SECRET", "JWT_EXPIRES_IN", "SECURITY_CORS_ORIGINS",
    "UPLOADS_DIR"]

def withOverrides (vars : Variables) (base : Settings) : Except SettingsError Settings := do
  let text (key : String) (default : String) : String := (vars key).getD default
  let port ← override vars "PORT" (parseNat limit16) base.server.port
  let db := base.database
  let dbPort ← override vars "DB_PORT" (parseNat limit16) db.port
  let maxConnections ← override vars "DATABASE_MAX_CONNECTIONS" (parseNat limit32) db.maxConnections
  let connectionTimeoutMs ←
    override vars "DATABASE_CONNECTION_TIMEOUT_MS" (parseNat limit64) db.connectionTimeoutMs
  let idleTimeoutSecs ←
    override vars "DATABASE_IDLE_TIMEOUT_SECS" (parseNat limit64) db.idleTimeoutSecs
  let queryLogging ← override vars "DATABASE_ENABLE_QUERY_LOGGING" parseBool db.queryLogging
  let slowQueryMs ←
    override vars "DATABASE_SLOW_QUERY_THRESHOLD_MS" (parseNat limit64) db.slowQueryMs
  let requestLogging ← override vars "API_ENABLE_REQUEST_LOGGING" parseBool base.api.requestLogging
  let maxRequestBytes ←
    override vars "API_MAX_REQUEST_SIZE_BYTES" (parseNat limit64) base.api.maxRequestBytes
  let lifetimeSecs ← override vars "JWT_EXPIRES_IN" parseLifetime? base.security.lifetimeSecs
  .ok {
    environment := base.environment
    server := ⟨text "HOST" base.server.host, port⟩
    database := {
      url := (vars "DATABASE_URL").or db.url
      host := text "DB_HOST" db.host
      port := dbPort
      name := text "DB_NAME" db.name
      user := text "DB_USER" db.user
      password := text "DB_PASSWORD" db.password
      ssl := tls vars db.ssl
      maxConnections, connectionTimeoutMs, idleTimeoutSecs, queryLogging, slowQueryMs }
    api := ⟨requestLogging, maxRequestBytes⟩
    security := ⟨text "JWT_SECRET" base.security.secret, lifetimeSecs,
      ((vars "SECURITY_CORS_ORIGINS").map parseOrigins).getD base.security.origins⟩
    uploads := ⟨text "UPLOADS_DIR" base.uploads.dir, base.uploads.publicPath⟩ }

def ofVariables (vars : Variables) : Except SettingsError Settings := do
  let settings ← withOverrides vars (defaults (Environment.ofName (vars "APP_ENV")))
  if settings.environment = .production ∧ settings.security.secret = developmentSecret then
    .error .insecureSecret
  else .ok settings

end Settings

def DatabaseSettings.maskedUrl (db : DatabaseSettings) : String :=
  match db.url with
  | some raw =>
    match Url.parse? raw with
    | some url =>
      if url.password.isEmpty then url.print
      else { url with password := "***".toList : Url }.print
    | none => "<invalid DATABASE_URL>"
  | none => "postgres://" ++ db.user ++ "@" ++ db.host ++ ":" ++ Nat.repr db.port ++ "/" ++ db.name

end JobTrail
