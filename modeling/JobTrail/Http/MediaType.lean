import JobTrail.Http.Message

/-! # Media types

`type/subtype+suffix; name=value`, where the parts are tokens and a value may be quoted. Type, subtype
and names are compared without case. Blanks may stand only before a parameter's name and after a
quoted value.
-/

namespace JobTrail

structure MediaType where
  main : String
  /-- Without the suffix. -/
  sub : String
  suffix : Option String
  params : List (String × String)
deriving DecidableEq, Repr

namespace MediaType

def isToken (c : Char) : Bool := c.isAlphanum || "!#$%&'*+-.^_`|~".toList.contains c

def isQuotable (c : Char) : Bool := ' ' ≤ c && c ≠ '\x7f'

/-- Splits a subtype at its last plus sign, unless it stands in front. -/
def splitSuffix (sub : List Char) : List Char × Option (List Char) :=
  let reversed := sub.reverse
  match (reversed.dropWhile (· ≠ '+')).drop 1 with
  | [] => (sub, none)
  | before => (before.reverse, some (reversed.takeWhile (· ≠ '+')).reverse)

/-- The text inside quotes and what follows them. It has at least one character, so a quote right
behind the first one belongs to it. -/
def quoted? : List Char → Option (List Char × List Char)
  | [] => none
  | c :: rest =>
    let inside := rest.takeWhile (· ≠ '"')
    match rest.dropWhile (· ≠ '"') with
    | [] => none
    | _ :: after => if (c :: inside).all isQuotable then some (c :: inside, after) else none

def value? : List Char → Option (List Char × List Char)
  | '"' :: rest => do
    let (value, after) ← quoted? rest
    match after.dropWhile (· = ' ') with
    | [] => some (value, [])
    | ';' :: rest => some (value, rest)
    | _ => none
  | cs =>
    match cs.takeWhile isToken, cs.dropWhile isToken with
    | value, [] => some (value, [])
    | value, ';' :: rest => if value.isEmpty then none else some (value, rest)
    | _, _ => none

/-- The parameters in a text; each uses up at least one character, which the fuel counts. -/
def params? : Nat → List Char → Option (List (String × String))
  | 0, _ => some []
  | fuel + 1, cs =>
    match cs.dropWhile (· = ' ') with
    | [] => some []
    | cs =>
      let name := cs.takeWhile isToken
      match cs.dropWhile isToken with
      | '=' :: rest =>
        if name.isEmpty then none
        else do
          let (value, rest) ← value? rest
          let others ← params? fuel rest
          some ((lowercase (String.ofList name), String.ofList value) :: others)
      | _ => none

def parse? (s : String) : Option MediaType :=
  let cs := s.toList
  let main := cs.takeWhile isToken
  match cs.dropWhile isToken with
  | '/' :: rest =>
    let sub := rest.takeWhile isToken
    let (plain, suffix) := splitSuffix sub
    let build (params : List (String × String)) : MediaType :=
      ⟨lowercase (String.ofList main), lowercase (String.ofList plain),
        suffix.map fun s => lowercase (String.ofList s), params⟩
    if main.isEmpty then none
    else
      match rest.dropWhile isToken with
      | [] => some (build [])
      | ';' :: rest => if sub.isEmpty then none else (params? (rest.length + 1) rest).map build
      | _ => none
  | _ => none

def param? (t : MediaType) (name : String) : Option String := t.params.lookup name

def isJson (t : MediaType) : Bool :=
  t.main = "application" && (t.sub = "json" || t.suffix = some "json")

def boundary? (t : MediaType) : Option String :=
  if t.main = "multipart" ∧ t.sub = "form-data" then t.param? "boundary" else none

end MediaType

def HttpRequest.mediaType? (r : HttpRequest) : Option MediaType :=
  (r.plainHeader? "content-type").bind MediaType.parse?

end JobTrail
