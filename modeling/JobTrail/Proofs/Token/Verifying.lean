import JobTrail.Proofs.Text.Base64
import JobTrail.Proofs.Token.Issuing
import JobTrail.Proofs.Value.Reading

/-!
# Verifying tokens

A token that is issued verifies as long as it has not expired, for any text in its claims: the three parts are
found again at the dots, and the claims are read back from their part. A token that verifies at all was signed
with the secret, and the claims that come out are those of its payload.
-/

set_option maxRecDepth 8192

namespace JobTrail.TokenKeys

variable {keys : TokenKeys} {now issuedAt : Int} {userId email token : String} {claims : Claims}

/-! ## Parts -/

theorem dot_notMem_url : '.' ∉ Base64.url.alphabet := by decide

theorem dot_notMem_encode (bytes : List UInt8) : '.' ∉ (Base64.url.encode bytes).toList :=
  fun h => dot_notMem_url (Base64.proper_url.mem_alphabet h)

theorem decodePart?_encodePart {v : Value} (h : v.Readable) :
    decodePart? (encodePart v).toList = some v.plain := by
  have hdecode : Base64.url.decode? (encodePart v) = some (utf8 v.print) :=
    Base64.proper_url.decode?_encode _
  rw [decodePart?, String.ofList_toList, hdecode, Option.bind_some]
  exact Json.readBytes?_print h

/-- Three texts without a dot between two dots. -/
theorem splitOn_parts {head body tail : List Char} (hhead : '.' ∉ head) (hbody : '.' ∉ body)
    (htail : '.' ∉ tail) : (head ++ '.' :: (body ++ '.' :: tail)).splitOn '.' = [head, body, tail] := by
  rw [List.splitOn_append_cons_self_of_not_mem hhead, List.splitOn_append_cons_self_of_not_mem hbody,
    List.splitOn_eq_singleton htail]

/-! ## The parts of an issued token -/

theorem readable_header : header.Readable where
  distinct := by simp [header, Value.distinct_record_iff, Value.distinct_text]
  numbers := by simp [header, Value.numbersReadBack_record_iff, Value.numbersReadBack_text]
  shallow := by decide

section Payload

variable (hissued : fitsInt64 claims.issuedAt) (hexpires : fitsInt64 claims.expires)
include hissued hexpires

theorem readable_payload : (payload claims).Readable where
  distinct := by
    simp [payload, Value.ofInt, Value.distinct_record_iff, Value.distinct_text, Value.distinct_number]
  numbers := by
    have hissued' := Number.readsBack_int (.inl hissued)
    have hexpires' := Number.readsBack_int (.inl hexpires)
    simp [payload, Value.ofInt, Value.numbersReadBack_record_iff, Value.numbersReadBack_text,
      Value.numbersReadBack_number_iff, hissued', hexpires']
  shallow := by
    change 1 ≤ 127
    omega

theorem claims?_payload : claims? (payload claims) = some claims := by
  have hissued' : (Value.ofInt claims.issuedAt).int? = some claims.issuedAt := if_pos hissued
  have hexpires' : (Value.ofInt claims.expires).int? = some claims.expires := if_pos hexpires
  simp [claims?, payload, Value.get?, Value.record?, Record.get?_cons, Value.text?, hissued', hexpires']

/-- A signed token is told by its expiry. -/
theorem verify_sign : keys.verify now (keys.sign claims) =
    if 0 ≤ claims.expires ∧ now - leewaySecs ≤ claims.expires then .ok claims else .error .invalidToken := by
  have hdot : ".".toList = ['.'] := rfl
  have hmessage : String.ofList ((encodePart header).toList ++ '.' :: (encodePart (payload claims)).toList)
      = encodePart header ++ "." ++ encodePart (payload claims) := by
    apply String.toList_injective
    simp [hdot]
  have hparts : (keys.sign claims).toList.splitOn '.' = [(encodePart header).toList,
      (encodePart (payload claims)).toList,
      (keys.signature (encodePart header ++ "." ++ encodePart (payload claims))).toList] := by
    simp only [sign, String.toList_append, hdot, List.append_assoc, List.singleton_append]
    exact splitOn_parts (dot_notMem_encode _) (dot_notMem_encode _) (dot_notMem_encode _)
  have hheader : decodePart? (encodePart header).toList = some header :=
    decodePart?_encodePart readable_header
  have hpayload : decodePart? (encodePart (payload claims)).toList = some (payload claims) :=
    decodePart?_encodePart (readable_payload hissued hexpires)
  have hnames : isHeader header = true := by decide
  have haudience : namesAudience (payload claims) = false := rfl
  rw [verify, verify?, hparts]
  simp only [hmessage, hheader, hpayload, claims?_payload hissued hexpires, hnames, haudience,
    String.ofList_toList, Option.bind_eq_bind, Option.bind_some, true_and, Bool.false_eq_true, not_false_eq_true]
  by_cases hvalid : 0 ≤ claims.expires ∧ now - leewaySecs ≤ claims.expires
  · rw [if_pos hvalid, if_pos hvalid]
  · rw [if_neg hvalid, if_neg hvalid]

end Payload

/-! ## Genuine tokens -/

/-- The claims as the members of a payload. -/
structure Carries (value : Value) (claims : Claims) : Prop where
  userId : value.get? "userId" = some (.text claims.userId)
  email : value.get? "email" = some (.text claims.email)
  issuedAt : value.get? "iat" = some (.ofInt claims.issuedAt)
  expires : value.get? "exp" = some (.ofInt claims.expires)

theorem eq_text_of_text? {v : Value} {s : String} (h : v.text? = some s) : v = .text s := by
  cases v <;> cases h
  rfl

theorem eq_ofInt_of_int? {v : Value} {n : Int} (h : v.int? = some n) : v = .ofInt n := by
  unfold Value.int? at h
  split at h
  · split at h
    · cases h
      rfl
    · cases h
  · cases h

theorem carries_of_claims? {value : Value} (h : claims? value = some claims) : Carries value claims := by
  obtain ⟨userId, huser, h⟩ := Option.bind_eq_some_iff.mp h
  obtain ⟨email, hemail, h⟩ := Option.bind_eq_some_iff.mp h
  obtain ⟨issuedAt, hissued, h⟩ := Option.bind_eq_some_iff.mp h
  obtain ⟨expires, hexpires, h⟩ := Option.bind_eq_some_iff.mp h
  cases h
  obtain ⟨_, huser, htext⟩ := Option.bind_eq_some_iff.mp huser
  obtain ⟨_, hemail, htext'⟩ := Option.bind_eq_some_iff.mp hemail
  obtain ⟨_, hissued, hint⟩ := Option.bind_eq_some_iff.mp hissued
  obtain ⟨_, hexpires, hint'⟩ := Option.bind_eq_some_iff.mp hexpires
  rw [eq_text_of_text? htext] at huser
  rw [eq_text_of_text? htext'] at hemail
  rw [eq_ofInt_of_int? hint] at hissued
  rw [eq_ofInt_of_int? hint'] at hexpires
  exact ⟨huser, hemail, hissued, hexpires⟩

/-- A header that names the algorithm, a payload that carries the claims, and the keyed digest of both under
the secret, each a part in base 64. -/
structure Signs (keys : TokenKeys) (head body tail : String) (claims : Claims) : Prop where
  dotless : '.' ∉ head.toList ∧ '.' ∉ body.toList ∧ '.' ∉ tail.toList
  header : ∃ bytes value, Base64.url.decode? head = some bytes ∧
    Json.readBytes? ⟨bytes.toArray⟩ = some value ∧ value.get? "alg" = some (.text "HS256")
  payload : ∃ bytes value, Base64.url.decode? body = some bytes ∧
    Json.readBytes? ⟨bytes.toArray⟩ = some value ∧ Carries value claims
  signature : tail = Base64.url.encode (Sha256.authenticate (utf8 keys.secret) (utf8 (head ++ "." ++ body)))

/-- The token is signed with the secret and carries the claims. -/
def Signed (keys : TokenKeys) (token : String) (claims : Claims) : Prop :=
  ∃ head body tail, token = head ++ "." ++ body ++ "." ++ tail ∧ keys.Signs head body tail claims

theorem dot_notMem_of_decode? {part : String} {bytes : List UInt8}
    (h : Base64.url.decode? part = some bytes) : '.' ∉ part.toList :=
  fun hdot => dot_notMem_url (Base64.mem_alphabet_of_decode? h _ hdot)

theorem isHeader_algorithm {header : Value} (h : isHeader header = true) :
    header.get? "alg" = some (.text "HS256") := by
  rw [isHeader, Bool.and_eq_true, Bool.and_eq_true, decide_eq_true_eq] at h
  obtain ⟨v, hv, htext⟩ := Option.bind_eq_some_iff.mp h.1.1
  rw [hv, eq_text_of_text? htext, algorithm]

theorem signed_of_verify? (h : keys.verify? now token = some claims) :
    keys.Signed token claims ∧ now - leewaySecs ≤ claims.expires := by
  unfold verify? at h
  split at h
  case h_2 => cases h
  rename_i head body tail hparts
  obtain ⟨header, hheader, h⟩ := Option.bind_eq_some_iff.mp h
  obtain ⟨value, hvalue, h⟩ := Option.bind_eq_some_iff.mp h
  obtain ⟨claims', hclaims, h⟩ := Option.bind_eq_some_iff.mp h
  obtain ⟨⟨hnames, hsignature, -, -, hunexpired⟩, hsame⟩ := Option.ite_none_right_eq_some.mp h
  cases hsame
  obtain ⟨headBytes, hhead, hheader⟩ := Option.bind_eq_some_iff.mp hheader
  obtain ⟨bodyBytes, hbody, hvalue⟩ := Option.bind_eq_some_iff.mp hvalue
  have hmessage : String.ofList (head ++ '.' :: body) = String.ofList head ++ "." ++ String.ofList body := by
    apply String.toList_injective
    simp
  rw [hmessage, signature] at hsignature
  have htail : '.' ∉ (String.ofList tail).toList := by
    rw [← hsignature]
    exact dot_notMem_encode _
  refine ⟨⟨String.ofList head, String.ofList body, String.ofList tail, ?_, ?_⟩, hunexpired⟩
  · have htoken : ['.'].intercalate (token.toList.splitOn '.') = token.toList := List.intercalate_splitOn '.'
    rw [hparts] at htoken
    apply String.toList_injective
    rw [← htoken]
    simp [List.intercalate]
  · exact {
      dotless := ⟨dot_notMem_of_decode? hhead, dot_notMem_of_decode? hbody, htail⟩
      header := ⟨headBytes, header, hhead, hheader, isHeader_algorithm hnames⟩
      payload := ⟨bodyBytes, value, hbody, hvalue, carries_of_claims? hclaims⟩
      signature := hsignature.symm }

/-! ## Issuing and verifying -/

theorem issue?_eq_some (h : keys.issue? issuedAt userId email = some token) :
    fitsInt64 issuedAt ∧ fitsInt64 (issuedAt + keys.lifetimeSecs) ∧
      token = keys.sign ⟨userId, email, issuedAt, issuedAt + keys.lifetimeSecs⟩ := by
  have hcomputed := isSome_issue?_iff.mp (Option.isSome_of_eq_some h)
  obtain ⟨expires, hexpires, rfl⟩ := Option.map_eq_some_iff.mp h
  rw [expiry?, if_pos hcomputed] at hexpires
  cases hexpires
  simp only [lifetimeLimit, calendarStart, calendarEnd] at hcomputed
  unfold fitsInt64
  exact ⟨by omega, by omega, rfl⟩

/-- A token that is issued verifies to its user, its email and an expiry that is its lifetime away, exactly as
long as it has not been expired for more than the leeway; an expiry before 1970 never counts, which only a
clock in the first minute of 1970 can tell. A token that verifies is signed with the secret, has not been
expired for more than the leeway, and the claims are those of its payload. Every failure is the same. -/
theorem verifies_signed_only (keys : TokenKeys) :
    (∀ issuedAt userId email token, keys.issue? issuedAt userId email = some token →
      let claims : Claims := ⟨userId, email, issuedAt, issuedAt + keys.lifetimeSecs⟩
      (∀ now, leewaySecs ≤ now → now - leewaySecs ≤ claims.expires → keys.verify now token = .ok claims) ∧
      ∀ now, keys.verify now token =
        if 0 ≤ claims.expires ∧ now - leewaySecs ≤ claims.expires then .ok claims
        else .error .invalidToken) ∧
    ∀ now token, (∃ claims, keys.verify now token = .ok claims ∧ keys.Signed token claims ∧
        now - leewaySecs ≤ claims.expires) ∨
      keys.verify now token = .error .invalidToken := by
  constructor
  · intro issuedAt userId email token hissue claims
    obtain ⟨hissued, hexpires, rfl⟩ := issue?_eq_some hissue
    have hverify : ∀ now, keys.verify now (keys.sign claims) =
        if 0 ≤ claims.expires ∧ now - leewaySecs ≤ claims.expires then .ok claims else .error .invalidToken :=
      fun now => verify_sign hissued hexpires
    refine ⟨?_, hverify⟩
    intro now hclock hunexpired
    rw [hverify, if_pos]
    exact ⟨by omega, hunexpired⟩
  · intro now token
    cases hverify : keys.verify? now token with
    | none =>
      refine .inr ?_
      rw [verify, hverify]
    | some claims =>
      obtain ⟨hsigned, hunexpired⟩ := signed_of_verify? hverify
      refine .inl ⟨claims, ?_, hsigned, hunexpired⟩
      rw [verify, hverify]

/-- An hour's token counts for an hour and a minute. -/
theorem verifies_signed_only_hour :
    let keys : TokenKeys := ⟨"secret", 3600, by decide⟩
    ∃ token, keys.issue? 0 "7" "ada@example.edu" = some token ∧
      keys.verify 3660 token = .ok ⟨"7", "ada@example.edu", 0, 3600⟩ ∧
      keys.verify 3661 token = .error .invalidToken ∧
      ∃ claims, keys.Signed token claims := by
  intro keys
  obtain ⟨hissued, hverified⟩ := verifies_signed_only keys
  obtain ⟨token, hissue⟩ := Option.isSome_iff_exists.mp
    (isSome_issue?_iff.mpr (by decide) : (keys.issue? 0 "7" "ada@example.edu").isSome)
  obtain ⟨hwithin, hverify⟩ := hissued 0 "7" "ada@example.edu" token hissue
  have hok : keys.verify 3660 token = .ok ⟨"7", "ada@example.edu", 0, 3600⟩ :=
    hwithin 3660 (by decide) (by decide)
  refine ⟨token, hissue, hok, (hverify 3661).trans (if_neg (by decide)), ?_⟩
  rcases hverified 3660 token with ⟨claims, -, hsigned, -⟩ | hinvalid
  · exact ⟨claims, hsigned⟩
  · rw [hok] at hinvalid
    cases hinvalid

end JobTrail.TokenKeys
