/-! # Reports of failures

What a program that gives up writes to its error stream: what it was doing, and under that, when it
is known, why that failed.
-/

namespace JobTrail

structure Report where
  context : String
  cause : Option String

namespace Report

def brief (r : Report) : String := "Error: " ++ r.context ++ "\n"

def indented (s : String) : String :=
  String.ofList ("    ".toList ++ s.toList.flatMap fun c =>
    if c = '\n' then "\n    ".toList else [c])

def full (r : Report) : String :=
  match r.cause with
  | some cause => "Error: " ++ r.context ++ "\n\nCaused by:\n" ++ indented cause ++ "\n"
  | none => r.brief

end Report
end JobTrail
