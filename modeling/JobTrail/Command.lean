import JobTrail.EnvFile
import JobTrail.Password
import JobTrail.Report
import JobTrail.Token
import JobTrail.Uuid
import JobTrail.Value.Document
import JobTrail.Value.Transcode

/-! # Commands

What the command line tool does: issue a token, transcode JSON, and hash a password. A command is run
in surroundings that hold all it can see, and gives a text for the output stream or the one thing
that went wrong.
-/

namespace JobTrail

inductive Command where
  | token (userId : List Nat) (email : String)
  | transcode (spelling : Spelling)
  | hashPassword
deriving DecidableEq, Repr

inductive CommandError where
  | unreadableInput
  | invalidJson
  | shortPassword
  | settings (e : SettingsError)
  | auth (e : AuthError)
  /-- The expiry of a token lies outside the calendar. -/
  | noExpiry
deriving DecidableEq, Repr

namespace CommandError

def report : CommandError → Report
  | unreadableInput => ⟨"failed to read stdin", some "stream did not contain valid UTF-8"⟩
  | invalidJson => ⟨"stdin is not valid JSON", none⟩
  | shortPassword =>
    ⟨"password must be at least " ++ Nat.repr minPasswordLength ++ " characters", none⟩
  | settings e => ⟨"invalid configuration", some e.message⟩
  | auth e => ⟨e.message, none⟩
  | noExpiry => ⟨"token expiry out of range", none⟩

def exit : CommandError → Nat
  | noExpiry => 101
  | _ => 1

end CommandError

structure Surroundings where
  vars : Settings.Variables
  input : ByteArray
  /-- Seconds since 1970-01-01. -/
  now : Int
  salt : List UInt8

namespace Command

def readsInput : Command → Bool
  | token .. => false
  | transcode _ | hashPassword => true

/-- The text on the input, which has to be UTF-8. -/
def readInput (s : Surroundings) : Except CommandError String :=
  match String.fromUTF8? s.input with
  | some text => .ok text
  | none => .error .unreadableInput

def transcodeText (spelling : Spelling) (text : String) : Except CommandError Value :=
  match Json.read? text with
  | some v => .ok (v.transcode spelling).throughDocument
  | none => .error .invalidJson

def dropLineEnds (s : String) : String :=
  String.ofList (s.toList.reverse.dropWhile fun c => c = '\r' ∨ c = '\n').reverse

def showResult (json : Bool) (name result : String) : String :=
  if json then (Value.record [(name, .text result)]).printSpread 0 ++ "\n" else result ++ "\n"

def issueToken (s : Surroundings) (userId : List Nat) (email : String) :
    Except CommandError String := do
  let settings ← (Settings.ofVariables s.vars).mapError .settings
  let security := settings.security
  let keys ← (TokenKeys.ofSecret security.secret security.lifetimeSecs).mapError .auth
  match keys.issue? s.now (Uuid.print userId) email with
  | some issued => .ok issued
  | none => .error .noExpiry

def hashInput (s : Surroundings) : Except CommandError String := do
  let password := dropLineEnds (← readInput s)
  if password.length < minPasswordLength then .error .shortPassword
  else .ok (JobTrail.hashPassword s.salt password)

/-- What a command writes to the output. Transcoded JSON is always JSON. -/
def output (s : Surroundings) (json : Bool) : Command → Except CommandError String
  | token userId email => do return showResult json "token" (← issueToken s userId email)
  | transcode spelling => do return (← transcodeText spelling (← readInput s)).printSpread 0 ++ "\n"
  | hashPassword => do return showResult json "hash" (← hashInput s)

end Command
end JobTrail
