import JobTrail.Proofs.Text.Percent
import JobTrail.Proofs.Url.Parts

/-!
# A password between user and host

A frame is the text around such a password, as the parser reads it: without the characters that it drops. A
frame with two passwords in it gives two URLs that differ in nothing but the password, and every URL with a
password has a frame.
-/

namespace JobTrail.Url

variable {special : Bool} {cs rest : List Char}

/-! ## Frames -/

/-- What ends the part of a URL that names user and host. -/
def isDelimiter (special : Bool) (c : Char) : Bool := isSlash special c || isTailMark c

/-- The text around a password that stands behind a user. -/
structure UserinfoFrame where
  name : List Char
  slashes : List Char
  user : List Char
  rest : List Char

namespace UserinfoFrame

variable {f : UserinfoFrame} {p : List Char}

def scheme (f : UserinfoFrame) : List Char := f.name.map Char.toLower

def text (f : UserinfoFrame) (p : List Char) : List Char :=
  f.name ++ ':' :: (f.slashes ++ (f.user ++ ':' :: (p ++ '@' :: f.rest)))

/-- The user ends at the first colon and the password at the last `@` in front of the path. -/
structure Proper (f : UserinfoFrame) : Prop where
  name : IsSchemeName f.name
  notFile : String.ofList f.scheme ≠ "file"
  slashes : if isSpecial f.scheme then ∀ c ∈ f.slashes, isSlash true c else f.slashes = ['/', '/']
  user : ':' ∉ f.user ∧ ∀ c ∈ f.user, ¬ isDelimiter (isSpecial f.scheme) c
  rest : '@' ∉ f.rest.takeWhile (!isDelimiter (isSpecial f.scheme) ·)

/-- A text that can stand in the frame as a password. -/
def Fits (f : UserinfoFrame) (p : List Char) : Prop := p ≠ [] ∧ ∀ c ∈ p, ¬ isDelimiter (isSpecial f.scheme) c

end UserinfoFrame

/-- The user information ends at the last `@`. -/
theorem splitUserinfo_append {given host : List Char} (h : '@' ∉ host) :
    splitUserinfo (given ++ '@' :: host) = (some given, host) := by
  have hmem : (given ++ '@' :: host).contains '@' = true := by simp
  have hreverse : (given ++ '@' :: host).reverse = host.reverse ++ '@' :: given.reverse := by simp
  have hhost : '@' ∉ host.reverse := by simpa using h
  obtain ⟨htake, hdrop⟩ := takeWhile_ne_append hhost given.reverse
  rw [splitUserinfo, if_pos hmem]
  dsimp only
  rw [hreverse, htake, hdrop]
  simp

/-- Credentials with a password need a host, whatever the password is. -/
theorem authority?_password {user host : List Char} (scheme : List Char) (huser : ':' ∉ user) (hhost : '@' ∉ host)
    (atEnd : Bool) : ∃ base : Option Authority, ∀ p ≠ [],
      authority? scheme atEnd (user ++ ':' :: (p ++ '@' :: host))
        = base.map fun a => { a with password := Percent.encode userinfoAllowed p } := by
  refine ⟨if (splitHost false host).1.isEmpty then none else do
    let host' ← host? (isSpecial scheme) (splitHost false host).1
    let port ← port? scheme (splitHost false host).2
    some ⟨Percent.encode userinfoAllowed user, [], host', port⟩, fun p hp => ?_⟩
  have hsplit : splitUserinfo (user ++ ':' :: (p ++ '@' :: host)) = (some (user ++ ':' :: p), host) := by
    have hassoc : user ++ ':' :: (p ++ '@' :: host) = user ++ ':' :: p ++ '@' :: host := by simp
    rw [hassoc, splitUserinfo_append hhost]
  obtain ⟨htake, hdrop⟩ := takeWhile_ne_append huser p
  have hpassword : ¬ (Percent.encode userinfoAllowed p).isEmpty = true := by
    simpa using Percent.encode_ne_nil hp
  simp only [authority?, hsplit, Option.getD_some, htake, hdrop, List.drop_one, List.tail_cons]
  by_cases hempty : (splitHost false host).1.isEmpty
  · simp [hempty, hpassword]
  · simp only [hempty, Bool.false_eq_true, false_and, if_false]
    cases host? (isSpecial scheme) (splitHost false host).1 with
    | none => rfl
    | some host' => cases port? scheme (splitHost false host).2 <;> rfl

theorem not_isSlash_colon (special : Bool) : isSlash special ':' = false := by cases special <;> rfl

theorem not_isSlash_at (special : Bool) : isSlash special '@' = false := by cases special <;> rfl

theorem withAuthority?_password {scheme user tail : List Char} (huser : ':' ∉ user)
    (hslash : ∀ c ∈ user, ¬ isSlash (isSpecial scheme) c)
    (hhost : '@' ∉ tail.takeWhile (!isSlash (isSpecial scheme) ·)) (query fragment : Option (List Char)) :
    ∃ base : Option Url, ∀ p ≠ [], (∀ c ∈ p, ¬ isSlash (isSpecial scheme) c) →
      withAuthority? scheme (user ++ ':' :: (p ++ '@' :: tail)) query fragment
        = base.map fun u => { u with password := Percent.encode userinfoAllowed p } := by
  obtain ⟨rest, hrest⟩ : ∃ rest, tail.dropWhile (!isSlash (isSpecial scheme) ·) = rest := ⟨_, rfl⟩
  obtain ⟨base, hbase⟩ := authority?_password scheme huser hhost
    (decide (rest.isEmpty ∧ query.isNone ∧ fragment.isNone))
  let path :=
    if rest.isEmpty then (if isSpecial scheme then [[]] else []) else segments (isSpecial scheme) rest.tail
  refine ⟨base.map fun a => ⟨scheme, a.username, a.password, some a.host, a.port, .segments path, query, fragment⟩,
    fun p hp hpslash => ?_⟩
  have hpos : ∀ c ∈ user ++ ':' :: (p ++ ['@']), (!isSlash (isSpecial scheme) c) = true := by
    intro c hc
    simp only [List.mem_append, List.mem_cons, List.not_mem_nil, or_false] at hc
    rcases hc with hc | rfl | hc | rfl
    · simpa using hslash c hc
    · simp [not_isSlash_colon]
    · simpa using hpslash c hc
    · simp [not_isSlash_at]
  have hassoc : user ++ ':' :: (p ++ '@' :: tail) = user ++ ':' :: (p ++ ['@']) ++ tail := by simp
  have htake : (user ++ ':' :: (p ++ '@' :: tail)).takeWhile (!isSlash (isSpecial scheme) ·)
      = user ++ ':' :: (p ++ '@' :: tail.takeWhile (!isSlash (isSpecial scheme) ·)) := by
    rw [hassoc, List.takeWhile_append_of_pos hpos]
    simp
  have hdrop : (user ++ ':' :: (p ++ '@' :: tail)).dropWhile (!isSlash (isSpecial scheme) ·) = rest := by
    rw [hassoc, List.dropWhile_append_of_pos hpos, hrest]
  simp only [withAuthority?, htake, hdrop]
  rw [hbase p hp]
  cases base with
  | none => rfl
  | some a => cases rest <;> rfl

variable {f : UserinfoFrame}

theorem not_isDelimiter_iff {c : Char} :
    ¬ isDelimiter special c ↔ ¬ isSlash special c ∧ c ≠ '?' ∧ c ≠ '#' := by
  simp [isDelimiter, isTailMark]

namespace UserinfoFrame

theorem Proper.slashes_plain (hf : f.Proper) : ∀ c ∈ f.slashes, isSlash true c := by
  have hslashes := hf.slashes
  split at hslashes
  · exact hslashes
  · simp [hslashes, isSlash]

/-- The slashes lead to the part of the URL that names user and host. -/
theorem Proper.ofParts? (hf : f.Proper) (tail : List Char) (query fragment : Option (List Char)) :
    Url.ofParts? f.scheme (f.slashes ++ (f.user ++ ':' :: tail)) query fragment
      = withAuthority? f.scheme (f.user ++ ':' :: tail) query fragment := by
  have hslashes := hf.slashes
  unfold Url.ofParts?
  rw [if_neg hf.notFile]
  by_cases hspecial : isSpecial f.scheme
  · rw [if_pos hspecial] at hslashes ⊢
    have huser := hf.user.2
    rw [hspecial] at huser
    have hstay : (f.user ++ ':' :: tail).dropWhile (isSlash true) = f.user ++ ':' :: tail := by
      cases hfirst : f.user with
      | nil => rfl
      | cons c user =>
        have hc := (not_isDelimiter_iff.mp (huser c (by simp [hfirst]))).1
        rw [List.cons_append, List.dropWhile_cons, if_neg hc]
    rw [List.dropWhile_append_of_pos hslashes, hstay]
  · rw [if_neg hspecial] at hslashes ⊢
    rw [hslashes]
    rfl

/-- A frame parses to one URL, up to the password in it. -/
theorem Proper.parse? (hf : f.Proper) : ∃ base : Option Url,
    ∀ (s : String) (p : List Char), clean s = f.text p → f.Fits p →
      Url.parse? s = base.map fun u => { u with password := Percent.encode userinfoAllowed p } := by
  obtain ⟨⟨front, query, fragment⟩, htail⟩ : ∃ tail, splitTail (isSpecial f.scheme) f.rest = tail := ⟨_, rfl⟩
  have hhost : '@' ∉ front.takeWhile (!isSlash (isSpecial f.scheme) ·) := by
    have hfront : front = f.rest.takeWhile (!isTailMark ·) := by
      rw [← splitTail_fst (isSpecial f.scheme), htail]
    have hboth : ∀ c, (!isSlash (isSpecial f.scheme) c && !isTailMark c) = !isDelimiter (isSpecial f.scheme) c := by
      intro c
      rw [isDelimiter, Bool.not_or]
    rw [hfront, List.takeWhile_takeWhile]
    simpa [hboth] using hf.rest
  obtain ⟨base, hbase⟩ := withAuthority?_password hf.user.1
    (fun c hc => (not_isDelimiter_iff.mp (hf.user.2 c hc)).1) hhost query fragment
  refine ⟨base, fun s p hs ⟨hne, hp⟩ => ?_⟩
  have hplain : ∀ c ∈ f.slashes ++ (f.user ++ ':' :: (p ++ ['@'])), ¬ isTailMark c := by
    intro c hc
    simp only [List.mem_append, List.mem_cons, List.not_mem_nil, or_false] at hc
    rcases hc with hc | hc | rfl | hc | rfl
    · have hslash := hf.slashes_plain c hc
      rintro hmark
      simp [isTailMark] at hmark
      rcases hmark with rfl | rfl <;> cases hslash
    · exact fun hmark => hf.user.2 c hc (by simp [isDelimiter, hmark])
    · decide
    · exact fun hmark => hp c hc (by simp [isDelimiter, hmark])
    · decide
  have hsplit : splitTail (isSpecial f.scheme) (f.slashes ++ (f.user ++ ':' :: (p ++ '@' :: f.rest)))
      = (f.slashes ++ (f.user ++ ':' :: (p ++ '@' :: front)), query, fragment) := by
    have hassoc : ∀ rest, f.slashes ++ (f.user ++ ':' :: (p ++ '@' :: rest))
        = f.slashes ++ (f.user ++ ':' :: (p ++ ['@'])) ++ rest := by simp
    rw [hassoc f.rest, splitTail_append ⟨fun h => hplain _ h rfl, fun h => hplain _ h rfl⟩, htail, hassoc front]
  rw [parse?_of_clean hf.name hs]
  change Url.ofParts? f.scheme (splitTail (isSpecial f.scheme) _).1 (splitTail (isSpecial f.scheme) _).2.1
    (splitTail (isSpecial f.scheme) _).2.2 = _
  rw [hsplit, hf.ofParts?]
  exact hbase p hne fun c hc => (not_isDelimiter_iff.mp (hp c hc)).1

end UserinfoFrame

/-! ## The frame of a password -/

theorem splitUserinfo_fst (cs : List Char) :
    (splitUserinfo cs).1 = none ∨
      ∃ given host, cs = given ++ '@' :: host ∧ '@' ∉ host ∧ (splitUserinfo cs).1 = some given := by
  by_cases hmem : '@' ∈ cs
  · obtain ⟨host, given, hreverse, hhost⟩ := List.eq_append_cons_of_mem (List.mem_reverse.mpr hmem)
    have hcs : cs = given.reverse ++ '@' :: host.reverse := by
      rw [← List.reverse_reverse cs, hreverse]
      simp
    have hhost' : '@' ∉ host.reverse := by simpa using hhost
    refine .inr ⟨given.reverse, host.reverse, hcs, hhost', ?_⟩
    rw [hcs, splitUserinfo_append hhost']
  · left
    rw [splitUserinfo, if_neg (by simpa using hmem)]

theorem authority?_password_eq {scheme cs : List Char} {atEnd : Bool} {a : Authority}
    (h : authority? scheme atEnd cs = some a) : a.password
      = Percent.encode userinfoAllowed ((((splitUserinfo cs).1.getD []).dropWhile (· ≠ ':')).drop 1) := by
  obtain ⟨-, h⟩ := Option.ite_none_left_eq_some.mp h
  obtain ⟨host, -, h⟩ := Option.bind_eq_some_iff.mp h
  obtain ⟨port, -, h⟩ := Option.bind_eq_some_iff.mp h
  cases h
  rfl

/-- A password stands between the first colon and the last `@`. -/
theorem exists_user_host {scheme cs : List Char} {atEnd : Bool} {a : Authority}
    (h : authority? scheme atEnd cs = some a) (hne : a.password ≠ []) :
    ∃ user p host, cs = user ++ ':' :: (p ++ '@' :: host) ∧ ':' ∉ user ∧ '@' ∉ host ∧ p ≠ [] := by
  have hpassword := authority?_password_eq h
  rcases splitUserinfo_fst cs with hnone | ⟨given, host, rfl, hhost, hgiven⟩
  · rw [hnone] at hpassword
    exact absurd hpassword hne
  · rw [hgiven, Option.getD_some] at hpassword
    by_cases hcolon : ':' ∈ given
    · obtain ⟨user, p, rfl, huser⟩ := List.eq_append_cons_of_mem hcolon
      rw [(takeWhile_ne_append huser p).2] at hpassword
      refine ⟨user, p, host, by simp, huser, hhost, ?_⟩
      rintro rfl
      exact hne hpassword
    · have hdrop : given.dropWhile (· ≠ ':') = [] := by
        rw [List.dropWhile_eq_nil_iff]
        intro c hc
        simpa using fun he : c = ':' => hcolon (he ▸ hc)
      rw [hdrop] at hpassword
      exact absurd hpassword hne

/-- A URL with a password names user and host behind its slashes. -/
theorem ofParts?_password {scheme front : List Char} {query fragment : Option (List Char)} {u : Url}
    (h : ofParts? scheme front query fragment = some u) (hne : u.password ≠ []) :
    String.ofList scheme ≠ "file" ∧ ∃ slashes text, front = slashes ++ text ∧
      (if isSpecial scheme then ∀ c ∈ slashes, isSlash true c else slashes = ['/', '/']) ∧
      withAuthority? scheme text query fragment = some u := by
  unfold ofParts? at h
  split at h
  · exact absurd (file?_eq_some h).1 hne
  · rename_i hfile
    refine ⟨hfile, ?_⟩
    split at h
    · rename_i hspecial
      refine ⟨front.takeWhile (isSlash true), front.dropWhile (isSlash true),
        List.takeWhile_append_dropWhile.symm, ?_, h⟩
      rw [if_pos hspecial]
      exact fun c hc => List.mem_takeWhile_imp hc
    · rename_i hspecial
      split at h
      · rename_i tail
        refine ⟨['/', '/'], tail, rfl, ?_, h⟩
        rw [if_neg hspecial]
      · cases h
        exact absurd rfl hne
      · cases h
        exact absurd rfl hne

/-- What is left of a text from its first slash on, or behind it from the first mark of query or fragment on, begins
with a delimiter. -/
theorem takeWhile_isDelimiter_tails (special : Bool) (text rest : List Char) :
    (text.dropWhile (!isSlash special ·) ++ rest.dropWhile (!isTailMark ·)).takeWhile (!isDelimiter special ·) = [] := by
  cases hbelow : text.dropWhile (!isSlash special ·) with
  | cons c tail => simp [isDelimiter, of_dropWhile_not_eq_cons hbelow]
  | nil =>
    cases hafter : rest.dropWhile (!isTailMark ·) with
    | nil => rfl
    | cons c tail => simp [isDelimiter, of_dropWhile_not_eq_cons hafter]

/-- Every URL with a password has a frame for it. -/
theorem UserinfoFrame.exists_of_parse? {s : String} {u : Url} (h : parse? s = some u) (hne : u.password ≠ []) :
    ∃ (f : UserinfoFrame) (p : List Char), f.Proper ∧ f.Fits p ∧ clean s = f.text p := by
  rw [parse?_eq] at h
  obtain ⟨⟨scheme, rest⟩, hscheme, h⟩ := Option.bind_eq_some_iff.mp h
  obtain ⟨name, hname, rfl, hclean⟩ := scheme?_eq_some hscheme
  let scheme := name.map Char.toLower
  obtain ⟨hfile, slashes, text, hfront, hslashes, hauthority⟩ := ofParts?_password h hne
  obtain ⟨a, ha, hu⟩ := Option.bind_eq_some_iff.mp hauthority
  cases hu
  obtain ⟨user, p, host, htext, huser, hhost, hp⟩ := exists_user_host ha hne
  let below := text.dropWhile (!isSlash (isSpecial scheme) ·)
  let after := rest.dropWhile (!isTailMark ·)
  have hsplit : text = user ++ ':' :: (p ++ '@' :: host) ++ below := by
    rw [← htext]
    exact List.takeWhile_append_dropWhile.symm
  rw [splitTail_fst] at hfront
  have hrest : rest = slashes ++ (user ++ ':' :: (p ++ '@' :: (host ++ (below ++ after)))) := by
    have hboth : rest = rest.takeWhile (!isTailMark ·) ++ after := List.takeWhile_append_dropWhile.symm
    rw [hfront, hsplit] at hboth
    rw [hboth]
    simp
  have hplain : ∀ c ∈ user ++ ':' :: (p ++ '@' :: host), ¬ isDelimiter (isSpecial scheme) c := by
    intro c hc
    have hslash := List.mem_takeWhile_imp (htext ▸ hc)
    have hmark : c ∈ rest.takeWhile (!isTailMark ·) := by
      rw [hfront, hsplit]
      exact List.mem_append_right _ (List.mem_append_left _ hc)
    have hmark' := List.mem_takeWhile_imp hmark
    simp only [isDelimiter, Bool.or_eq_true, not_or]
    exact ⟨by simpa using hslash, by simpa using hmark'⟩
  have hend : (below ++ after).takeWhile (!isDelimiter (isSpecial scheme) ·) = [] :=
    takeWhile_isDelimiter_tails (isSpecial scheme) text rest
  refine ⟨⟨name, slashes, user, host ++ (below ++ after)⟩, p, ?_, ?_, ?_⟩
  · refine ⟨hname, hfile, hslashes, ⟨huser, fun c hc => hplain c (by simp [hc])⟩, ?_⟩
    change '@' ∉ (host ++ (below ++ after)).takeWhile (!isDelimiter (isSpecial scheme) ·)
    rw [List.takeWhile_append_of_pos fun c hc => by simpa using hplain c (by simp [hc]), hend, List.append_nil]
    exact hhost
  · exact ⟨hp, fun c hc => hplain c (by simp [hc])⟩
  · rw [hclean, hrest]
    rfl

end JobTrail.Url
