import JobTrail.Http.Message

/-! # Origins

Which origins a browser may call the interface from, with credentials. Without a list every origin is
allowed; with one, only its members are. An origin that cannot stand in a header is dropped from the
list, and a list with a star cannot be used.
-/

namespace JobTrail

inductive Origins where
  | every
  | listed (origins : List String)
deriving DecidableEq, Repr

namespace Origins

/-- The origins of the settings; `none` when a star stands among them, which stops the program. -/
def ofList? (origins : List String) : Option Origins :=
  match origins.filter fun o => o.toList.all isHeaderChar with
  | [] => some every
  | sendable => if sendable.contains "*" then none else some (listed sendable)

def allows : Origins → String → Bool
  | every, _ => true
  | listed origins, o => origins.contains o

def sharing (origins : Origins) (origin : Option String) : Headers :=
  let allowed := (origin.filter origins.allows).toList.map fun o => ("access-control-allow-origin", o)
  allowed ++ [("access-control-allow-credentials", "true")]

def preflight (origins : Origins) (origin : Option String) : HttpResponse where
  status := 200
  headers := origins.sharing origin
    ++ [("access-control-allow-methods", "GET,POST,PUT,DELETE,OPTIONS"),
      ("access-control-allow-headers", "content-type,authorization")]
  body := .empty

end Origins
end JobTrail
