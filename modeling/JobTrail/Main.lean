import JobTrail.Command.Outcome
import Std.Time.DateTime.Timestamp

/-! # The command line tool

Gathers what a command can see, runs it, and writes its outcome. Variables come from the process and
from the nearest environment file; the input is read only for a command that wants it.
-/

namespace JobTrail

/-- The text of the nearest file `.env`, in a directory or above it. A directory is given by the
parts of its path, the last one first. -/
def nearestEnvText : List String → IO String
  | [] => return ""
  | part :: above => do
    let file := "/".intercalate (part :: above).reverse ++ "/.env"
    try IO.FS.readFile file catch _ => nearestEnvText above

def gatherVariables : IO Settings.Variables := do
  let text ← nearestEnvText ((← IO.currentDir).toString.splitOn "/").reverse
  let found := EnvFile.assignments (EnvFile.logicalLines text)
  let names := "CLI_VERBOSE" :: Settings.variableNames ++ EnvFile.mentioned found
  let values ← names.mapM fun name => return (name, ← IO.getEnv name)
  return found.foldl EnvFile.assign fun name => (values.lookup name).join

def gatherInput (words : List String) : IO ByteArray := do
  match Request.ofWords words with
  | .ok (.run _ command) =>
    if command.readsInput then (← IO.getStdin).readBinToEnd else return .empty
  | _ => return .empty

end JobTrail

open JobTrail in
def main (words : List String) : IO UInt32 := do
  let around : Surroundings :=
    { vars := ← gatherVariables
      input := ← gatherInput words
      now := (← Std.Time.Timestamp.now).toSecondsSinceUnixEpoch.val
      salt := (← IO.getRandomBytes 16).data.toList }
  let outcome := Outcome.ofWords around words
  IO.print outcome.output
  IO.eprint outcome.errors
  return outcome.exit.toUInt32
