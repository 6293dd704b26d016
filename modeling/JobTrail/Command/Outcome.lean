import JobTrail.Command.Help

/-! # Outcomes of a command line

What a call of the tool leaves behind: an exit code and the texts of its two streams. A command line
that cannot be read exits with 2, a command that fails with 1.
-/

namespace JobTrail

structure Outcome where
  exit : Nat
  output : String
  errors : String
deriving DecidableEq, Repr

namespace Outcome

def isVerbose (vars : Settings.Variables) : Bool :=
  match vars "CLI_VERBOSE" with
  | some "true" | some "1" => true
  | _ => false

def versionText : String := "poros 0.1.0\n"

def ofError (s : Surroundings) (e : CommandError) : Outcome :=
  ⟨e.exit, "", if isVerbose s.vars then e.report.full else e.report.brief⟩

def ofRequest (s : Surroundings) : Request → Outcome
  | .run json command =>
    match command.output s json with
    | .ok text => ⟨0, text, ""⟩
    | .error e => ofError s e
  | .version => ⟨0, versionText, ""⟩
  | .help topic => ⟨0, (HelpPage.ofTopic topic).print, ""⟩

def ofWords (s : Surroundings) (words : List String) : Outcome :=
  match Request.ofWords words with
  | .ok request => ofRequest s request
  | .error e => ⟨2, "", "error: " ++ e.message ++ "\n"⟩

end Outcome
end JobTrail
