import JobTrail.Settings

/-! # Connection target

Where and how the pool connects. A connection string names host, port, user and database in its
parts and overrides them by query parameters; the settings may force TLS on top.
-/

namespace JobTrail

inductive TlsMode where
  | disable
  | allow
  | prefer
  | require
  | verifyCa
  | verifyFull
deriving DecidableEq, Repr

namespace TlsMode

def name : TlsMode → String
  | disable => "Disable"
  | allow => "Allow"
  | prefer => "Prefer"
  | require => "Require"
  | verifyCa => "VerifyCa"
  | verifyFull => "VerifyFull"

def ofText? (s : String) : Option TlsMode :=
  match String.ofList (s.toList.map Char.toLower) with
  | "disable" => some disable
  | "allow" => some allow
  | "prefer" => some prefer
  | "require" => some require
  | "verify-ca" => some verifyCa
  | "verify-full" => some verifyFull
  | _ => none

end TlsMode

structure ConnectionTarget where
  host : String
  port : Nat
  user : String
  password : Option String
  database : Option String
  tls : TlsMode
deriving DecidableEq, Repr

namespace ConnectionTarget

def unnamed (user : String) : ConnectionTarget := ⟨"localhost", 5432, user, none, none, .prefer⟩

/-- One query parameter; unknown ones are passed over. -/
def withParameter (t : ConnectionTarget) (key value : String) : Option ConnectionTarget :=
  match key with
  | "sslmode" | "ssl-mode" => (TlsMode.ofText? value).map fun mode => { t with tls := mode }
  | "statement-cache-capacity" => (readUpTo? Settings.limit64 value.toList).map fun _ => t
  | "host" => some (if value.toList.head? = some '/' then t else { t with host := value })
  | "hostaddr" =>
    if (Url.ipv6? value.toList).isSome ∨ (Url.ipv6Tail? value.toList).isSome then
      some { t with host := value }
    else none
  | "port" => (readUpTo? Settings.limit16 value.toList).map fun port => { t with port }
  | "dbname" => some { t with database := some value }
  | "user" => some { t with user := value }
  | "password" => some { t with password := some value }
  | _ => some t

def plainPart (encoded : List Char) : Option String := Percent.decodeText? (String.ofList encoded)

/-- The target that a connection string names. The user and the password are decoded, the path is
taken as it stands without the slashes in front. -/
def ofUrl? (user raw : String) : Option ConnectionTarget := do
  let url ← Url.parse? raw
  let host := (url.host.filter (!·.isEmpty)).map String.ofList
  let named ← if url.username.isEmpty then some user else plainPart url.username
  let password ← if url.password.isEmpty then some none else (plainPart url.password).map some
  let path := url.pathText.dropWhile (· = '/')
  let base := unnamed named
  let target := { base with
    host := host.getD base.host
    port := url.port.getD base.port
    password
    database := if path.isEmpty then none else some (String.ofList path) }
  (Percent.formFields (String.ofList (url.query.getD []))).foldlM
    (fun t (key, value) => t.withParameter key value) target

/-- The target of the settings. `user` is the name used when a connection string has none. -/
def ofSettings? (user : String) (db : DatabaseSettings) : Option ConnectionTarget := do
  let target ← match db.url with
    | some raw => ofUrl? user raw
    | none =>
      some ⟨db.host, db.port, db.user, some db.password, some db.name, .prefer⟩
  some (if db.ssl then { target with tls := .require } else target)

end ConnectionTarget
end JobTrail
