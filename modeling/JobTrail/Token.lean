import JobTrail.Crypto.Sha256
import JobTrail.Error
import JobTrail.Text.Base64
import JobTrail.Value.Printer
import JobTrail.Value.Reader

/-! # Session tokens

A token is three parts between dots: a header, the claims, and the keyed digest of the first two,
each in base 64. Verifying recomputes the digest, wants the header to name the one algorithm used
here, and allows a minute after the expiry. Every failure is the same error.
-/

namespace JobTrail

structure Claims where
  userId : String
  email : String
  /-- Seconds since 1970-01-01. -/
  issuedAt : Int
  expires : Int
deriving DecidableEq, Repr

structure TokenKeys where
  secret : String
  lifetimeSecs : Int
  secret_ne : secret ≠ ""

namespace TokenKeys

def ofSecret (secret : String) (lifetimeSecs : Int) : Except AuthError TokenKeys :=
  if h : secret = "" then .error .missingSecret else .ok ⟨secret, lifetimeSecs, h⟩

def describe (keys : TokenKeys) : String :=
  "JwtKeys \x7b expiry_secs: " ++ toString keys.lifetimeSecs ++ " \x7d"

def algorithm : String := "HS256"

def header : Value := .record [("typ", .text "JWT"), ("alg", .text algorithm)]

def payload (c : Claims) : Value :=
  .record [("userId", .text c.userId), ("email", .text c.email), ("iat", .ofInt c.issuedAt),
    ("exp", .ofInt c.expires)]

def utf8 (s : String) : List UInt8 := s.toUTF8.data.toList

def encodePart (v : Value) : String := Base64.url.encode (utf8 v.print)

def signature (keys : TokenKeys) (message : String) : String :=
  Base64.url.encode (Sha256.authenticate (utf8 keys.secret) (utf8 message))

def sign (keys : TokenKeys) (c : Claims) : String :=
  let message := encodePart header ++ "." ++ encodePart (payload c)
  message ++ "." ++ keys.signature message

/-- The first and the last second of the calendar in which expiries are computed. -/
def calendarStart : Int := -8334601228800
def calendarEnd : Int := 8210266876799

/-- Lifetimes are held in milliseconds of 64 bits. -/
def lifetimeLimit : Int := 9223372036854775

/-- The expiry of a token issued at a time; `none` when it cannot be computed, which stops the
program. -/
def expiry? (keys : TokenKeys) (now : Int) : Option Int :=
  let expires := now + keys.lifetimeSecs
  if keys.lifetimeSecs.natAbs ≤ lifetimeLimit ∧ calendarStart ≤ expires ∧ expires ≤ calendarEnd then
    some expires
  else none

def issue? (keys : TokenKeys) (now : Int) (userId email : String) : Option String :=
  (keys.expiry? now).map fun expires => keys.sign ⟨userId, email, now, expires⟩

/-! ## Verifying -/

def leewaySecs : Int := 60

def decodePart? (part : List Char) : Option Value :=
  (Base64.url.decode? (String.ofList part)).bind fun bytes => Json.readBytes? ⟨bytes.toArray⟩

def isOptionalText (v : Value) (key : String) : Bool :=
  match v.get? key with
  | none | some .null | some (.text _) => true
  | some _ => false

def isOptionalTexts (v : Value) (key : String) : Bool :=
  match v.get? key with
  | none | some .null => true
  | some (.sequence items) => items.all fun i => i.text?.isSome
  | some _ => false

def isHeader (v : Value) : Bool :=
  (v.get? "alg").bind Value.text? = some algorithm
    && ["typ", "cty", "jku", "kid", "x5u", "x5t", "x5t#S256"].all (isOptionalText v)
    && isOptionalTexts v "x5c"

def namesAudience (v : Value) : Bool :=
  match v.get? "aud" with
  | some (.text _) => true
  | some (.sequence items) => items.all fun i => i.text?.isSome
  | _ => false

def claims? (v : Value) : Option Claims := do
  let userId ← (v.get? "userId").bind Value.text?
  let email ← (v.get? "email").bind Value.text?
  let issuedAt ← (v.get? "iat").bind Value.int?
  let expires ← (v.get? "exp").bind Value.int?
  some ⟨userId, email, issuedAt, expires⟩

def verify? (keys : TokenKeys) (now : Int) (token : String) : Option Claims := do
  match token.toList.splitOn '.' with
  | [head, body, tail] =>
    let message := String.ofList (head ++ '.' :: body)
    let header ← decodePart? head
    let value ← decodePart? body
    let claims ← claims? value
    if isHeader header ∧ keys.signature message = String.ofList tail ∧ ¬ namesAudience value
        ∧ 0 ≤ claims.expires ∧ now - leewaySecs ≤ claims.expires then
      some claims
    else none
  | _ => none

def verify (keys : TokenKeys) (now : Int) (token : String) : Except AuthError Claims :=
  match keys.verify? now token with
  | some claims => .ok claims
  | none => .error .invalidToken

end TokenKeys
end JobTrail
