import JobTrail.Text.Blank
import JobTrail.Text.Integer
import JobTrail.Text.Percent

/-! # URLs

Absolute URLs by the WHATWG rules: parsing without a base, and the normal form. The schemes `http`,
`https`, `ws`, `wss` and `ftp` are special: they need a host, lower its case, drop their default
port, always have a path, and read a backslash as a slash. Hosts of other schemes are kept as
written. A domain of a special scheme has to be ASCII.
-/

namespace JobTrail

inductive UrlPath where
  /-- Text after the scheme that is no hierarchy, as in `mailto:x`. -/
  | plain (text : List Char)
  | segments (list : List (List Char))
deriving DecidableEq

/-- A parsed URL; every part is in its encoded form. -/
structure Url where
  scheme : List Char
  username : List Char
  password : List Char
  host : Option (List Char)
  port : Option Nat
  path : UrlPath
  query : Option (List Char)
  fragment : Option (List Char)
deriving DecidableEq

namespace Url

/-! ## Characters -/

def printableBut (excluded : String) (c : Char) : Bool :=
  0x20 ≤ c.toNat && c.toNat < 0x7F && !excluded.toList.contains c

def fragmentAllowed : Char → Bool := printableBut " \"<>\x60"

def queryAllowed : Char → Bool := printableBut " \"#<>"

def specialQueryAllowed : Char → Bool := printableBut " \"#<>'"

def pathAllowed : Char → Bool := printableBut " \"#<>?\x60\x7b\x7d"

def userinfoAllowed : Char → Bool := printableBut " \"#<>?\x60\x7b\x7d/:;=@[\\]^|"

def isForbiddenHostChar (c : Char) : Bool := "\x00\t\n\r #/:<>?@[\\]^|".toList.contains c

def isForbiddenDomainChar (c : Char) : Bool :=
  isForbiddenHostChar c || c.toNat < 0x20 || c == '%' || c == '\x7f'

def specialPort? (scheme : List Char) : Option Nat :=
  match String.ofList scheme with
  | "http" | "ws" => some 80
  | "https" | "wss" => some 443
  | "ftp" => some 21
  | _ => none

def isSpecial (scheme : List Char) : Bool :=
  (specialPort? scheme).isSome || String.ofList scheme == "file"

/-! ## Hosts -/

/-- The number that a part of an IPv4 address denotes: decimal, octal after `0`, hexadecimal after
`0x`. -/
def ipv4Number? (cs : List Char) : Option Nat :=
  let read (base : Nat) (ds : List Char) : Option Nat :=
    ds.foldlM (fun n c => do
      let d ← hexValue? c
      if d < base then some (base * n + d) else none) 0
  match cs with
  | [] => none
  | '0' :: x :: rest => if x = 'x' ∨ x = 'X' then read 16 rest else read 8 (x :: rest)
  | cs => read 10 cs

/-- An IPv4 address has one to four parts; the last one fills the bytes that are left. -/
def ipv4? (parts : List (List Char)) : Option Nat := do
  let numbers ← parts.mapM ipv4Number?
  if numbers.isEmpty ∨ 4 < numbers.length then none
  let last ← numbers.getLast?
  let front := numbers.dropLast
  if front.any (255 < ·) ∨ Nat.pow 256 (5 - numbers.length) ≤ last then none
  some (front.zipIdx.foldl (fun sum (n, i) => sum + n * Nat.pow 256 (3 - i)) last)

def printIpv4 (address : Nat) : List Char :=
  ".".toList.intercalate
    ([16777216, 65536, 256, 1].map fun place => (Nat.repr (address / place % 256)).toList)

def ipv6Group? (cs : List Char) : Option Nat :=
  if cs.isEmpty ∨ 4 < cs.length then none
  else cs.foldlM (fun n c => (hexValue? c).map (16 * n + ·)) 0

def ipv6Tail? (cs : List Char) : Option (List Nat) := do
  let parts := cs.splitOn '.'
  if parts.length ≠ 4 then none
  let bytes ← parts.mapM fun part =>
    if 1 < part.length ∧ part.head? = some '0' then none else (readDigits? part).filter (· ≤ 255)
  match bytes with
  | [a, b, c, d] => some [256 * a + b, 256 * c + d]
  | _ => none

def ipv6Groups? (cs : List Char) : Option (List Nat) :=
  if cs.isEmpty then some []
  else
    let parts := cs.splitOn ':'
    match parts.getLast? with
    | some last =>
      if last.contains '.' then do
        let front ← parts.dropLast.mapM ipv6Group?
        let tail ← ipv6Tail? last
        some (front ++ tail)
      else parts.mapM ipv6Group?
    | none => none

def splitDoubleColon : List Char → Option (List Char × List Char)
  | ':' :: ':' :: rest => some ([], rest)
  | c :: rest => (splitDoubleColon rest).map fun (before, after) => (c :: before, after)
  | [] => none

def ipv6? (cs : List Char) : Option (List Nat) :=
  match splitDoubleColon cs with
  | none => (ipv6Groups? cs).filter (·.length = 8)
  | some (before, after) => do
    let front ← ipv6Groups? before
    let back ← ipv6Groups? after
    if before.contains '.' ∨ 8 ≤ front.length + back.length then none
    some (front ++ List.replicate (8 - front.length - back.length) 0 ++ back)

def longestZeros (groups : List Nat) : Nat × Nat :=
  let runs := (List.range groups.length).map fun i =>
    (i, ((groups.drop i).takeWhile (· = 0)).length)
  runs.foldl (fun best run => if best.2 < run.2 then run else best) (0, 0)

/-- Groups in lowercase hexadecimal; the longest run of two or more zeros becomes `::`. -/
def printIpv6 (groups : List Nat) : List Char :=
  let join (list : List Nat) : List Char := [':'].intercalate (list.map (Nat.toDigits 16 ·))
  let (start, length) := longestZeros groups
  if length < 2 then join groups
  else join (groups.take start) ++ [':', ':'] ++ join (groups.drop (start + length))

def endsInNumber (parts : List (List Char)) : Bool :=
  match parts.getLast? with
  | some last => (!last.isEmpty && last.all Char.isDigit)
    || (last.take 2 == ['0', 'x'] && (ipv4Number? last).isSome)
  | none => false

def domain? (cs : List Char) : Option (List Char) := do
  let text ← Percent.decodeText? (String.ofList cs)
  let lowered := text.toList.map Char.toLower
  if lowered.isEmpty ∨ lowered.any isForbiddenDomainChar ∨ lowered.any (127 < ·.toNat) then none
  let parts := lowered.splitOn '.'
  let parts := if parts.getLast? = some [] ∧ 1 < parts.length then parts.dropLast else parts
  if endsInNumber parts then (ipv4? parts).map printIpv4 else some lowered

def host? (special : Bool) (cs : List Char) : Option (List Char) :=
  match cs with
  | '[' :: rest =>
    if rest.getLast? = some ']' then
      (ipv6? rest.dropLast).map fun groups => '[' :: printIpv6 groups ++ [']']
    else none
  | cs =>
    if special then domain? cs
    else if cs.any isForbiddenHostChar then none
    else some (Percent.encode (fun c => 0x20 ≤ c.toNat ∧ c.toNat < 0x7F) cs)

/-! ## Authority -/

/-- The host ends at the first colon outside brackets. -/
def splitHost (inside : Bool) : List Char → List Char × List Char
  | [] => ([], [])
  | c :: rest =>
    if c = ':' ∧ ¬ inside then ([], c :: rest)
    else
      let (host, port) := splitHost (if c = '[' then true else if c = ']' then false else inside) rest
      (c :: host, port)

/-- A port is decimal, at most 65535, and absent when it is the default one. -/
def port? (scheme : List Char) : List Char → Option (Option Nat)
  | [] => some none
  | _ :: digits =>
    if digits.isEmpty then some none
    else if ¬ digits.all Char.isDigit then none
    else
      let n := digitsValue 0 digits
      if 65535 < n then none else some (if specialPort? scheme = some n then none else some n)

def splitUserinfo (cs : List Char) : Option (List Char) × List Char :=
  if cs.contains '@' then
    let reversed := cs.reverse
    (some ((reversed.dropWhile (· ≠ '@')).drop 1).reverse,
      (reversed.takeWhile (· ≠ '@')).reverse)
  else (none, cs)

structure Authority where
  username : List Char
  password : List Char
  host : List Char
  port : Option Nat

/-- Credentials and a port need a host. `atEnd` says that nothing follows the authority. -/
def authority? (scheme : List Char) (atEnd : Bool) (cs : List Char) : Option Authority := do
  let (userinfo, rest) := splitUserinfo cs
  let given := userinfo.getD []
  let username := Percent.encode userinfoAllowed (given.takeWhile (· ≠ ':'))
  let password := Percent.encode userinfoAllowed ((given.dropWhile (· ≠ ':')).drop 1)
  let (hostText, portText) := splitHost false rest
  if hostText.isEmpty ∧ (isSpecial scheme ∨ ¬ portText.isEmpty ∨ ¬ username.isEmpty
      ∨ ¬ password.isEmpty ∨ (userinfo = some [] ∧ ¬ atEnd)) then none
  let host ← host? (isSpecial scheme) hostText
  let port ← port? scheme portText
  some ⟨username, password, host, port⟩

/-! ## Path -/

def isSingleDot (segment : List Char) : Bool :=
  [".", "%2e"].contains (String.ofList (segment.map Char.toLower))

def isDoubleDot (segment : List Char) : Bool :=
  ["..", ".%2e", "%2e.", "%2e%2e"].contains (String.ofList (segment.map Char.toLower))

/-- Adds a segment to those before it, in reverse; dots move and a final dot leaves an empty one. -/
def addSegment (final : Bool) (reversed : List (List Char)) (segment : List Char) :
    List (List Char) :=
  let encoded := Percent.encode pathAllowed segment
  if isDoubleDot encoded then
    if final then [] :: reversed.drop 1 else reversed.drop 1
  else if isSingleDot encoded then
    if final then [] :: reversed else reversed
  else encoded :: reversed

def addSegments (reversed : List (List Char)) : List (List Char) → List (List Char)
  | [] => reversed.reverse
  | [last] => (addSegment true reversed last).reverse
  | segment :: rest => addSegments (addSegment false reversed segment) rest

def segments (special : Bool) (cs : List Char) : List (List Char) :=
  addSegments [] ((if special then cs.map fun c => if c = '\\' then '/' else c else cs).splitOn '/')

def isSlash (special : Bool) (c : Char) : Bool := c == '/' || (special && c == '\\')

/-! ## The whole URL -/

/-- Without controls and spaces at the ends, and without tabs and line ends anywhere. -/
def clean (s : String) : List Char :=
  let edge (c : Char) : Bool := c.toNat ≤ 0x20
  ((s.toList.dropWhile edge).reverse.dropWhile edge).reverse.filter
    fun c => c ≠ '\t' ∧ c ≠ '\n' ∧ c ≠ '\r'

def scheme? (cs : List Char) : Option (List Char × List Char) := do
  let (name, rest) ← splitFirst ':' cs
  let first ← name.head?
  if first.isAlpha ∧ name.all fun c => c.isAlphanum ∨ c = '+' ∨ c = '-' ∨ c = '.' then
    some (name.map Char.toLower, rest)
  else none

def splitTail (special : Bool) (cs : List Char) :
    List Char × Option (List Char) × Option (List Char) :=
  let (front, fragment) := match splitFirst '#' cs with
    | some (front, f) => (front, some (Percent.encode fragmentAllowed f))
    | none => (cs, none)
  match splitFirst '?' front with
  | some (front, q) =>
    (front, some (Percent.encode (if special then specialQueryAllowed else queryAllowed) q), fragment)
  | none => (front, none, fragment)

def withAuthority? (scheme cs : List Char) (query fragment : Option (List Char)) : Option Url := do
  let special := isSpecial scheme
  let text := cs.takeWhile (!isSlash special ·)
  let rest := cs.dropWhile (!isSlash special ·)
  let atEnd := rest.isEmpty ∧ query.isNone ∧ fragment.isNone
  let a ← authority? scheme atEnd text
  let path := match rest with
    | [] => if special then [[]] else []
    | _ :: tail => segments special tail
  some ⟨scheme, a.username, a.password, some a.host, a.port, .segments path, query, fragment⟩

/-- A `file` URL; the host `localhost` is the empty one. -/
def file? (scheme cs : List Char) (query fragment : Option (List Char)) : Option Url := do
  let (hostText, rest) := match cs with
    | a :: b :: rest =>
      if isSlash true a && isSlash true b then
        (rest.takeWhile (!isSlash true ·), rest.dropWhile (!isSlash true ·))
      else ([], a :: b :: rest)
    | cs => ([], cs)
  let host ← if hostText.isEmpty then some [] else host? true hostText
  let host := if String.ofList host = "localhost" then [] else host
  let path := match rest with
    | c :: tail => if isSlash true c then tail else c :: tail
    | [] => []
  some ⟨scheme, [], [], some host, none, .segments (segments true path), query, fragment⟩

def parse? (s : String) : Option Url := do
  let (scheme, rest) ← scheme? (clean s)
  let (front, query, fragment) := splitTail (isSpecial scheme) rest
  if String.ofList scheme = "file" then file? scheme front query fragment
  else if isSpecial scheme then
    withAuthority? scheme (front.dropWhile (isSlash true)) query fragment
  else
    match front with
    | '/' :: '/' :: tail => withAuthority? scheme tail query fragment
    | '/' :: tail =>
      some ⟨scheme, [], [], none, none, .segments (segments false tail), query, fragment⟩
    | text =>
      let encoded := Percent.encode (fun c => 0x20 ≤ c.toNat ∧ c.toNat < 0x7F) text
      some ⟨scheme, [], [], none, none, .plain encoded, query, fragment⟩

/-- The text of the path. Without a host a path that starts with two slashes is kept apart from an
authority. -/
def pathText (u : Url) : List Char :=
  match u.path with
  | .plain text => text
  | .segments list =>
    let dot := if u.host.isNone ∧ list.head? = some [] ∧ 1 < list.length then ['/', '.'] else []
    dot ++ list.flatMap fun segment => '/' :: segment

def credentials (u : Url) : List Char :=
  if u.username.isEmpty ∧ u.password.isEmpty then []
  else u.username ++ (if u.password.isEmpty then [] else ':' :: u.password) ++ ['@']

def print (u : Url) : String :=
  let origin := match u.host with
    | none => []
    | some host =>
      let port := match u.port with
        | some n => ':' :: (Nat.repr n).toList
        | none => []
      ['/', '/'] ++ u.credentials ++ host ++ port
  let tail (mark : Char) : Option (List Char) → List Char
    | some text => mark :: text
    | none => []
  String.ofList (u.scheme ++ [':'] ++ origin ++ u.pathText ++ tail '?' u.query ++ tail '#' u.fragment)

end Url
end JobTrail
