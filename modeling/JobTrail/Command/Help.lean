import JobTrail.Command.Arguments

/-! # Pages of help

A page says what its topic is for, how it is called, and what it takes: titled lists of two columns,
the second of which starts two blanks after the widest entry of the first.
-/

namespace JobTrail

structure HelpPage where
  about : String
  usage : String
  sections : List (String × List (String × String))

namespace HelpPage

def printRows (rows : List (String × String)) : String :=
  let width := (rows.map fun r => r.1.length).foldl max 0
  String.join (rows.map fun (left, right) =>
    "  " ++ left ++ String.ofList (List.replicate (width + 2 - left.length) ' ') ++ right ++ "\n")

def print (p : HelpPage) : String :=
  p.about ++ "\n\nUsage: " ++ p.usage ++ "\n"
    ++ String.join (p.sections.map fun (title, rows) => "\n" ++ title ++ ":\n" ++ printRows rows)

def jsonRow : String × String := ("    --json", "Output in JSON format")

def helpRow : String × String := ("-h, --help", "Print help")

def commandAbout : CommandName → String
  | .token => "Issue a bearer token with the configured JWT secret"
  | .transcode => "Transcode JSON from stdin between snake_case and camelCase"
  | .hashPassword => "Hash a password read from stdin"

def helpAbout : String := "Print this message or the help of the given subcommand(s)"

def commandUsage : CommandName → String
  | .token => " --user-id <USER_ID> --email <EMAIL>"
  | .transcode => " --to <TO>"
  | .hashPassword => ""

def commandRows : CommandName → List (String × String)
  | .token =>
    [("    --user-id <USER_ID>", "User id (UUID) to put in the token"),
      ("    --email <EMAIL>", "Email to put in the token")]
  | .transcode => [("    --to <TO>", "Target key casing [possible values: camel, snake]")]
  | .hashPassword => []

def ofTopic : Topic → HelpPage
  | .tool =>
    { about := "Poros CLI - tokens, password hashes and payload transcoding for the Poros API"
      usage := "poros [OPTIONS] <COMMAND>"
      sections :=
        [("Commands", [CommandName.token, .transcode, .hashPassword].map
            (fun n => (n.text, commandAbout n)) ++ [("help", helpAbout)]),
          ("Options", [jsonRow, helpRow, ("-V, --version", "Print version")])] }
  | .command name =>
    { about := commandAbout name
      usage := "poros " ++ name.text ++ " [OPTIONS]" ++ commandUsage name
      sections := [("Options", jsonRow :: commandRows name ++ [helpRow])] }
  | .help =>
    { about := helpAbout
      usage := "poros help [COMMAND]..."
      sections := [("Arguments", [("[COMMAND]...", "Print help for the subcommand(s)")])] }

end HelpPage
end JobTrail
