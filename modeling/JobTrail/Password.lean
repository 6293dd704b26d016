import JobTrail.Crypto.Argon2
import JobTrail.Text.Base64
import JobTrail.Text.Integer

/-! # Stored passwords

A password is stored as one text, `$argon2id$v=19$m=..,t=..,p=..$salt$digest`, with the parameters it
was made with. Checking takes kind, version and parameters from the text. A text that cannot be read
verifies no password.
-/

namespace JobTrail

def minPasswordLength : Nat := 6

structure StoredPassword where
  params : Argon2.Params
  salt : List UInt8
  digest : List UInt8
deriving DecidableEq

namespace StoredPassword

def kindName : Argon2.Kind → String
  | .d => "argon2d"
  | .i => "argon2i"
  | .id => "argon2id"

def kind? (s : List Char) : Option Argon2.Kind :=
  match String.ofList s with
  | "argon2d" => some .d
  | "argon2i" => some .i
  | "argon2id" => some .id
  | _ => none

/-- Digits without a zero in front, up to 32 bits. -/
def decimal? (cs : List Char) : Option Nat :=
  if 1 < cs.length ∧ cs.head? = some '0' then none
  else (readDigits? cs).filter (· ≤ 4294967295)

/-- The version field, when the first field after the kind is one. -/
def splitVersion (fields : List (List Char)) : Option Nat × List (List Char) :=
  match fields with
  | ('v' :: '=' :: digits) :: rest =>
    if digits.contains ',' then (some 19, fields)
    else (match decimal? digits with | some n => if n = 16 ∨ n = 19 then some n else none | none => none,
      rest)
  | _ => (some 19, fields)

def isValueChar (c : Char) : Bool := c.isAlphanum || ['/', '+', '.', '-'].contains c

def withParam (p : Argon2.Params) (item : List Char) : Option Argon2.Params :=
  match item.splitOn '=' with
  | [name, value] =>
    if ¬ value.all isValueChar ∨ 64 < value.length then none
    else
      match String.ofList name with
      | "m" => (decimal? value).map fun n => { p with memoryKiB := n }
      | "t" => (decimal? value).map fun n => { p with passes := n }
      | "p" => (decimal? value).map fun n => { p with lanes := n }
      | "data" =>
        ((Base64.standard.decode? (String.ofList value)).filter (·.length ≤ 32)).map fun bytes =>
          { p with associated := bytes }
      | "keyid" =>
        ((Base64.standard.decode? (String.ofList value)).filter (·.length ≤ 8)).map fun _ => p
      | _ => none
  | _ => none

/-- The parameter field, when the next field holds an equals sign. -/
def splitParams (p : Argon2.Params) (fields : List (List Char)) :
    Option Argon2.Params × List (List Char) :=
  match fields with
  | field :: rest =>
    if field.contains '=' then
      (if 127 < field.length then none else (field.splitOn ',').foldlM withParam p, rest)
    else (some p, fields)
  | [] => (some p, [])

/-- The parameters that a new password gets, and that stand for those a text leaves out. -/
def defaultParams : Argon2.Params := ⟨.id, 19, 19456, 2, 1, 32, []⟩

/-- The memory has to hold eight blocks a lane. -/
def usable (p : Argon2.Params) : Bool :=
  8 ≤ p.memoryKiB && 8 * p.lanes ≤ p.memoryKiB && 1 ≤ p.passes && 1 ≤ p.lanes && p.lanes < 16777216

def parse? (s : String) : Option StoredPassword := do
  match s.toList.splitOn '$' with
  | [] :: name :: fields =>
    let kind ← kind? name
    let (version, fields) := splitVersion fields
    let version ← version
    let (params, fields) := splitParams { defaultParams with kind, version } fields
    let params ← params
    match fields with
    | [saltText, digestText] =>
      if saltText.length < 4 ∨ 64 < saltText.length then none
      let salt ← Base64.standard.decode? (String.ofList saltText)
      let digest ← Base64.standard.decode? (String.ofList digestText)
      if salt.length < 8 ∨ digest.length < 10 ∨ 64 < digest.length ∨ ¬ usable params then none
      some ⟨{ params with size := digest.length }, salt, digest⟩
    | _ => none
  | _ => none

def print (p : StoredPassword) : String :=
  "$" ++ kindName p.params.kind ++ "$v=" ++ Nat.repr p.params.version
    ++ "$m=" ++ Nat.repr p.params.memoryKiB ++ ",t=" ++ Nat.repr p.params.passes
    ++ ",p=" ++ Nat.repr p.params.lanes ++ "$" ++ Base64.standard.encode p.salt
    ++ "$" ++ Base64.standard.encode p.digest

end StoredPassword

def passwordBytes (password : String) : List UInt8 := password.toUTF8.data.toList

/-- The stored form of a new password. The salt is sixteen fresh bytes. -/
def hashPassword (salt : List UInt8) (password : String) : String :=
  let params := StoredPassword.defaultParams
  StoredPassword.print ⟨params, salt, Argon2.hash params (passwordBytes password) salt⟩

def verifyPassword (password stored : String) : Bool :=
  match StoredPassword.parse? stored with
  | some p => Argon2.hash p.params (passwordBytes password) p.salt = p.digest
  | none => false

end JobTrail
