import JobTrail.Database.Target
import JobTrail.Report
import JobTrail.Token

/-! # Starting the service

What has to be in order before the service takes requests, looked at in a fixed order: the settings,
the database target, the signing keys, and the address to listen on. The first that is not stops the
start.
-/

namespace JobTrail

inductive StartupError where
  | settings (e : SettingsError)
  | database (e : DatabaseError)
  | keys (e : AuthError)
  /-- The address cannot be listened on; the cause is the system's text. -/
  | address (address cause : String)
deriving DecidableEq, Repr

def StartupError.report : StartupError → Report
  | settings e => ⟨"invalid configuration", some e.message⟩
  | database e => ⟨"failed to configure database pool", some e.message⟩
  | keys e => ⟨"failed to load JWT keys", some e.message⟩
  | address at_ cause => ⟨"failed to bind " ++ at_, some cause⟩

structure Startup where
  settings : Settings
  target : ConnectionTarget
  keys : TokenKeys

namespace Startup

def address (s : Startup) : String :=
  s.settings.server.host ++ ":" ++ Nat.repr s.settings.server.port

/-- Everything that variables decide. `user` is the database user when none is named. -/
def ofVariables (user : String) (vars : Settings.Variables) : Except StartupError Startup :=
  match Settings.ofVariables vars with
  | .error e => .error (.settings e)
  | .ok settings =>
    match ConnectionTarget.ofSettings? user settings.database with
    | none => .error (.database .invalidUrl)
    | some target =>
      match TokenKeys.ofSecret settings.security.secret settings.security.lifetimeSecs with
      | .error e => .error (.keys e)
      | .ok keys => .ok ⟨settings, target, keys⟩

/-- A start on a system where listening on an address fails with a cause, if it does. -/
def listening (refusal : String → Option String) (user : String) (vars : Settings.Variables) :
    Except StartupError Startup := do
  let s ← ofVariables user vars
  match refusal s.address with
  | some cause => .error (.address s.address cause)
  | none => .ok s

end Startup
end JobTrail
