import JobTrail.Command

/-! # Command lines

Reading the words of a command line. Words are read from left to right, and the first that does not
fit, or that asks for help or the version, decides; only then is it asked whether anything is
missing. `--json` may stand on either side of the command's name, once on each.
-/

namespace JobTrail

inductive CommandName where
  | token
  | transcode
  | hashPassword
deriving DecidableEq, Repr

namespace CommandName

def text : CommandName → String
  | token => "token"
  | transcode => "transcode"
  | hashPassword => "hash-password"

def ofText? (s : String) : Option CommandName :=
  [token, transcode, hashPassword].find? fun n => n.text = s

end CommandName

inductive Topic where
  | tool
  | command (name : CommandName)
  | help
deriving DecidableEq, Repr

inductive Request where
  | run (json : Bool) (command : Command)
  | version
  | help (topic : Topic)
deriving DecidableEq, Repr

inductive UsageError where
  | missingCommand
  | unexpected (word : String)
  | repeated (option : String)
  | missingValue (option : String)
  | invalidValue (option value : String)
  | missingOption (option : String)
deriving DecidableEq, Repr

def UsageError.message : UsageError → String
  | missingCommand => "a command is missing"
  | unexpected word => "unexpected argument " ++ word
  | repeated option => "--" ++ option ++ " cannot be used twice"
  | missingValue option => "--" ++ option ++ " needs a value"
  | invalidValue option value => "invalid value " ++ value ++ " for --" ++ option
  | missingOption option => "--" ++ option ++ " is required"

/-! ## Words -/

inductive Word where
  /-- `--name` or `--name=value`. -/
  | long (name : String) (value : Option String)
  /-- Letters after a single hyphen. -/
  | short (letters : List Char)
  /-- Two hyphens alone. -/
  | separator
  | plain (text : String)
deriving DecidableEq, Repr

def Word.ofText (s : String) : Word :=
  match s.toList with
  | ['-', '-'] => separator
  | '-' :: '-' :: rest =>
    match splitFirst '=' rest with
    | some (name, value) => long (String.ofList name) (some (String.ofList value))
    | none => long (String.ofList rest) none
  | '-' :: c :: rest => short (c :: rest)
  | _ => plain s

/-! ## Options of a command -/

structure Draft where
  json : Bool
  userId : Option (List Nat)
  email : Option String
  spelling : Option Spelling

namespace Draft

def empty : Draft := ⟨false, none, none, none⟩

def spellingOf? (s : String) : Option Spelling :=
  match s with
  | "camel" => some .camel
  | "snake" => some .snake
  | _ => none

/-- The value of an option, which must be the first it gets and one that it can have. -/
def fill (option value : String) (held : Option α) (read : String → Option α) :
    Except UsageError (Option α) :=
  if held.isSome then .error (.repeated option)
  else
    match read value with
    | some v => .ok (some v)
    | none => .error (.invalidValue option value)

def set (d : Draft) (name : CommandName) (option value : String) : Except UsageError Draft :=
  match name, option with
  | .token, "user-id" => do
    return { d with userId := ← fill option value d.userId Uuid.parse? }
  | .token, "email" => do return { d with email := ← fill option value d.email some }
  | .transcode, "to" => do
    return { d with spelling := ← fill option value d.spelling spellingOf? }
  | _, _ => .error (.unexpected ("--" ++ option))

def required (option : String) (held : Option α) : Except UsageError α :=
  match held with
  | some v => .ok v
  | none => .error (.missingOption option)

def command (d : Draft) : CommandName → Except UsageError Command
  | .token => do return .token (← required "user-id" d.userId) (← required "email" d.email)
  | .transcode => do return .transcode (← required "to" d.spelling)
  | .hashPassword => .ok .hashPassword

end Draft

/-! ## Reading -/

namespace Request

/-- The words after a command's name. A value may stand in the word after its option when that word
does not start with a hyphen. `json` tells whether `--json` stood in front of the name. -/
def readOptions (json : Bool) (name : CommandName) (d : Draft) :
    List String → Except UsageError Request
  | [] => do return run (json || d.json) (← d.command name)
  | word :: rest =>
    match Word.ofText word with
    | .long "json" none =>
      if d.json then .error (.repeated "json") else readOptions json name { d with json := true } rest
    | .long "help" none | .short ('h' :: _) => .ok (help (.command name))
    | .long option (some value) => do readOptions json name (← d.set name option value) rest
    | .long option none =>
      match rest with
      | [] => .error (.missingValue option)
      | value :: later =>
        match Word.ofText value with
        | .plain value => do readOptions json name (← d.set name option value) later
        | _ => .error (.missingValue option)
    | .separator =>
      match rest with
      | [] => do return run (json || d.json) (← d.command name)
      | extra :: _ => .error (.unexpected extra)
    | .short _ | .plain _ => .error (.unexpected word)

def readTopic : List String → Except UsageError Request
  | [] => .ok (help .tool)
  | ["help"] => .ok (help .help)
  | word :: rest =>
    match CommandName.ofText? word, rest with
    | some name, [] => .ok (help (.command name))
    | some _, extra :: _ => .error (.unexpected extra)
    | none, _ => .error (.unexpected word)

def readWords (json : Bool) : List String → Except UsageError Request
  | [] => .error .missingCommand
  | word :: rest =>
    match Word.ofText word with
    | .long "json" none =>
      if json then .error (.repeated "json") else readWords true rest
    | .long "help" none | .short ('h' :: _) => .ok (help .tool)
    | .long "version" none | .short ('V' :: _) => .ok version
    | .plain "help" => readTopic rest
    | .plain text =>
      match CommandName.ofText? text with
      | some name => readOptions json name .empty rest
      | none => .error (.unexpected text)
    | _ => .error (.unexpected word)

def ofWords (words : List String) : Except UsageError Request := readWords false words

end Request
end JobTrail
