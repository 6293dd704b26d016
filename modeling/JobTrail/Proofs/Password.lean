import JobTrail.Password
import JobTrail.Proofs.Text.Base64

/-!
# A new password verifies

What is stored for a new password is read back field by field: none of its fields holds the mark that separates
them, the parameters in it are usable, and the digest has as many bytes as they ask for. So it is computed again
from the same parameters and the same salt.
-/

namespace JobTrail

/-! ## The size of a digest -/

namespace Blake2b

theorem size_compress (h : Array UInt64) (block : List UInt8) (count : Nat) (final : Bool) :
    (compress h block count final).size = h.size := Array.size_mapIdx

theorem size_absorb (blocks : Nat) (h : Array UInt64) (rest : List UInt8) (count : Nat) :
    (absorb blocks h rest count).size = h.size := by
  induction blocks generalizing h rest count with
  | zero => exact size_compress h rest _ true
  | succ blocks ih => rw [absorb, ih, size_compress]

theorem length_wordBytes (x : UInt64) : (wordBytes x).length = 8 := rfl

theorem length_flatMap_wordBytes (words : List UInt64) : (words.flatMap wordBytes).length = 8 * words.length := by
  induction words with
  | nil => rfl
  | cons x words ih =>
    rw [List.flatMap_cons, List.length_append, length_wordBytes, ih, List.length_cons]
    omega

theorem length_digest {size : Nat} (h : size ≤ 64) (message : List UInt8) :
    (digest size message).length = size := by
  rw [digest, List.length_take, length_flatMap_wordBytes, Array.length_toList, size_absorb, Array.size_modify]
  exact Nat.min_eq_left h

end Blake2b

theorem Argon2.length_hash {p : Params} (h : p.size ≤ 64) (password salt : List UInt8) :
    (hash p password salt).length = p.size := by
  rw [hash, longDigest]
  simp only [if_pos h]
  exact Blake2b.length_digest h _

/-! ## The stored text -/

theorem Base64.length_encode (code : Base64) (bytes : List UInt8) :
    (code.encode bytes).toList.length = (4 * bytes.length + 2) / 3 := by
  rw [encode, String.toList_ofList]
  fun_induction encodeBytes code bytes with
  | case1 => rfl
  | case2 a n => simp
  | case3 a b n => simp
  | case4 a b c rest n ih =>
    simp only [List.length_cons, ih]
    omega

namespace StoredPassword

variable {salt digest : List UInt8}

/-- A salt that is neither too short nor too long to be read back. -/
def UsableSalt (salt : List UInt8) : Prop := 8 ≤ salt.length ∧ salt.length ≤ 48

/-- How the parameters of a new password are spelled. -/
def defaultField : List Char := "m=19456,t=2,p=1".toList

theorem dollar_notMem_encode (bytes : List UInt8) : '$' ∉ (Base64.standard.encode bytes).toList := by
  intro h
  have hnot : '$' ∉ Base64.standard.alphabet := by decide
  exact hnot (Base64.proper_standard.mem_alphabet h)

/-- The fields of the text that a new password is stored as. -/
theorem splitOn_print (salt digest : List UInt8) :
    (print ⟨defaultParams, salt, digest⟩).toList.splitOn '$'
      = [[], "argon2id".toList, "v=19".toList, defaultField, (Base64.standard.encode salt).toList,
        (Base64.standard.encode digest).toList] := by
  have hhead : "$" ++ kindName defaultParams.kind ++ "$v=" ++ Nat.repr defaultParams.version
      ++ "$m=" ++ Nat.repr defaultParams.memoryKiB ++ ",t=" ++ Nat.repr defaultParams.passes
      ++ ",p=" ++ Nat.repr defaultParams.lanes ++ "$" = "$argon2id$v=19$m=19456,t=2,p=1$" := by decide
  have hprint : print ⟨defaultParams, salt, digest⟩ = "$argon2id$v=19$m=19456,t=2,p=1$"
      ++ Base64.standard.encode salt ++ "$" ++ Base64.standard.encode digest :=
    congrArg (· ++ Base64.standard.encode salt ++ "$" ++ Base64.standard.encode digest) hhead
  have hchars : (print ⟨defaultParams, salt, digest⟩).toList
      = [] ++ '$' :: ("argon2id".toList ++ '$' :: ("v=19".toList ++ '$' :: (defaultField
        ++ '$' :: ((Base64.standard.encode salt).toList ++ '$' :: (Base64.standard.encode digest).toList)))) := by
    rw [hprint]
    simp only [String.toList_append, List.append_assoc]
    rfl
  rw [hchars, List.splitOn_append_cons_self_of_not_mem List.not_mem_nil,
    List.splitOn_append_cons_self_of_not_mem (by decide), List.splitOn_append_cons_self_of_not_mem (by decide),
    List.splitOn_append_cons_self_of_not_mem (by decide),
    List.splitOn_append_cons_self_of_not_mem (dollar_notMem_encode salt),
    List.splitOn_eq_singleton (dollar_notMem_encode digest)]

theorem kind?_argon2id : kind? "argon2id".toList = some .id := by decide

theorem splitVersion_cons (fields : List (List Char)) :
    splitVersion ("v=19".toList :: fields) = (some 19, fields) := by
  have hversion : decimal? ['1', '9'] = some 19 := by decide
  change splitVersion (['v', '=', '1', '9'] :: fields) = (some 19, fields)
  rw [splitVersion, if_neg (by decide), hversion]
  rfl

theorem splitParams_cons (fields : List (List Char)) :
    splitParams { defaultParams with kind := .id, version := 19 } (defaultField :: fields)
      = (some defaultParams, fields) := by
  have hparams : (defaultField.splitOn ',').foldlM withParam defaultParams = some defaultParams := by decide
  exact congrArg (·, fields) hparams

/-- What a new password is stored as is read back. -/
theorem parse?_print (hsalt : UsableSalt salt) (hdigest : digest.length = defaultParams.size) :
    parse? (print ⟨defaultParams, salt, digest⟩) = some ⟨defaultParams, salt, digest⟩ := by
  obtain ⟨hmin, hmax⟩ := hsalt
  have hlength := Base64.length_encode Base64.standard salt
  have htext : ¬ ((Base64.standard.encode salt).toList.length < 4 ∨
      64 < (Base64.standard.encode salt).toList.length) := by
    omega
  have hsize : digest.length = 32 := hdigest
  have hbytes : ¬ (salt.length < 8 ∨ digest.length < 10 ∨ 64 < digest.length ∨ ¬ usable defaultParams) := by
    have husable : usable defaultParams := by decide
    simp only [husable, not_true_eq_false, or_false]
    omega
  simp only [parse?, splitOn_print, kind?_argon2id, splitVersion_cons, splitParams_cons, Option.bind_eq_bind,
    Option.bind_some, if_neg htext, String.ofList_toList, Base64.proper_standard.decode?_encode, if_neg hbytes]
  rw [hdigest]

end StoredPassword

open StoredPassword

variable {salt salt' : List UInt8} {password password' : String}

theorem parse?_hashPassword (hsalt : UsableSalt salt) (password : String) :
    parse? (hashPassword salt password)
      = some ⟨defaultParams, salt, Argon2.hash defaultParams (passwordBytes password) salt⟩ :=
  parse?_print hsalt (Argon2.length_hash (by decide) _ salt)

/-- A new password verifies with what is stored for it. -/
theorem verifyPassword_hashPassword (hsalt : UsableSalt salt) (password : String) :
    verifyPassword password (hashPassword salt password) = true := by
  rw [verifyPassword, parse?_hashPassword hsalt]
  exact decide_eq_true rfl

/-- Under another salt another text is stored. -/
theorem salt_eq_of_hashPassword_eq (hsalt : UsableSalt salt) (hsalt' : UsableSalt salt')
    (h : hashPassword salt password = hashPassword salt' password') : salt = salt' := by
  have hparsed := congrArg parse? h
  rw [parse?_hashPassword hsalt, parse?_hashPassword hsalt'] at hparsed
  exact (StoredPassword.mk.inj (Option.some.inj hparsed)).2.1

end JobTrail
