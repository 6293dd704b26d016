import JobTrail.Proofs.Text.Percent
import JobTrail.Proofs.Url.Parts

/-!
# A password in the query

The frame of a password that a query parameter holds: the text around the value of the last parameter of this
name, as the parser reads it. Two passwords in a frame give two URLs that differ in nothing but the query, and
the same parameters but for this value. Every URL with such a parameter has a frame for it.
-/

namespace JobTrail.Url

variable {special : Bool}

/-! ## Frames -/

/-- The parameters of a query in its encoded form. -/
def parameters (query : List Char) : List (String × String) := Percent.formFields (String.ofList query)

/-- The value of the last parameter that is named `password`. -/
def passwordParameter? (query : List Char) : Option String :=
  ((parameters query).reverse.find? (·.1 = "password")).map (·.2)

theorem parameters_append (a b : List Char) : parameters (a ++ '&' :: b) = parameters a ++ parameters b :=
  Percent.formFields_append a b

theorem passwordParameter?_append (a b : List Char) :
    passwordParameter? (a ++ '&' :: b) = (passwordParameter? b).or (passwordParameter? a) := by
  rw [passwordParameter?, parameters_append, List.reverse_append, List.find?_append, Option.map_or]
  rfl

theorem passwordParameter?_eq_none_iff {query : List Char} :
    passwordParameter? query = none ↔ ∀ e ∈ parameters query, e.1 ≠ "password" := by
  simp [passwordParameter?]

structure QueryFrame where
  name : List Char
  front : List Char
  /-- The parameters before this one, with the mark behind each. -/
  before : List Char
  key : List Char
  /-- The parameters after this one, with the mark in front of each. -/
  after : List Char
  tail : List Char

namespace QueryFrame

variable {f : QueryFrame} {p : List Char}

def scheme (f : QueryFrame) : List Char := f.name.map Char.toLower

def allowed (f : QueryFrame) : Char → Bool := queryAllowedIn (isSpecial f.scheme)

theorem allowed_ampersand (f : QueryFrame) : f.allowed '&' = true := by
  rw [allowed, queryAllowedIn]
  split <;> decide

theorem allowed_equals (f : QueryFrame) : f.allowed '=' = true := by
  rw [allowed, queryAllowedIn]
  split <;> decide

def query (f : QueryFrame) (p : List Char) : List Char := f.before ++ (f.key ++ '=' :: (p ++ f.after))

def text (f : QueryFrame) (p : List Char) : List Char :=
  f.name ++ ':' :: (f.front ++ '?' :: (f.query p ++ f.tail))

/-- The key reads `password`, and no parameter after it does. -/
structure Proper (f : QueryFrame) : Prop where
  name : IsSchemeName f.name
  front : '?' ∉ f.front ∧ '#' ∉ f.front
  unmarked : '#' ∉ f.before ++ f.key ++ f.after
  before : f.before = [] ∨ ∃ fields, f.before = fields ++ ['&']
  key : '&' ∉ f.key ∧ '=' ∉ f.key
  named : Percent.decodeFormPart (Percent.encode f.allowed f.key) = "password"
  after : f.after = [] ∨ ∃ fields, f.after = '&' :: fields
  last : passwordParameter? (Percent.encode f.allowed f.after) = none
  tail : ∀ c ∈ f.tail.head?, c = '#'

/-- A text that can stand in the frame as a password. -/
def Fits (p : List Char) : Prop := p ≠ [] ∧ '&' ∉ p ∧ '#' ∉ p

end QueryFrame

section Given

variable (scheme cs query : List Char) (fragment : Option (List Char))

theorem withAuthority?_query : withAuthority? scheme cs (some query) fragment
    = (withAuthority? scheme cs (some []) fragment).map fun u => { u with query := some query } := by
  simp only [withAuthority?, Option.isNone_some]
  cases authority? scheme _ _ <;> rfl

theorem file?_query : file? scheme cs (some query) fragment
    = (file? scheme cs (some []) fragment).map fun u => { u with query := some query } := by
  unfold file?
  dsimp only
  refine (ite_congr rfl (fun _ => ?_) fun _ => ?_).trans (apply_ite (Option.map _) _ _ _).symm
  · rfl
  · cases host? true _ <;> rfl

/-- A URL has its query as it is given, and nothing else of it depends on what the query is. -/
theorem ofParts?_query : ofParts? scheme cs (some query) fragment
    = (ofParts? scheme cs (some []) fragment).map fun u => { u with query := some query } := by
  unfold ofParts?
  split
  · exact file?_query scheme cs query fragment
  split
  · exact withAuthority?_query scheme _ query fragment
  split
  · exact withAuthority?_query scheme _ query fragment
  · rfl
  · rfl

end Given

theorem ofParts?_query_eq {scheme cs : List Char} {query fragment : Option (List Char)} {u : Url}
    (h : ofParts? scheme cs query fragment = some u) : u.query = query := by
  unfold ofParts? at h
  split at h
  · exact (file?_eq_some h).2
  split at h
  · obtain ⟨a, -, h⟩ := Option.bind_eq_some_iff.mp h
    cases h
    rfl
  split at h
  · obtain ⟨a, -, h⟩ := Option.bind_eq_some_iff.mp h
    cases h
    rfl
  · cases h
    rfl
  · cases h
    rfl

namespace QueryFrame

variable {f : QueryFrame}

/-- A frame parses to one URL, up to the query. -/
theorem Proper.parse? (hf : f.Proper) : ∃ base : Option Url, ∀ (s : String) (p : List Char),
    clean s = f.text p → Fits p →
      Url.parse? s = base.map fun u => { u with query := some (Percent.encode f.allowed (f.query p)) } := by
  refine ⟨ofParts? f.scheme f.front (some []) (splitTail (isSpecial f.scheme) f.tail).2.2, fun s p hs hp => ?_⟩
  have hquery : '#' ∉ f.query p := by
    have hunmarked := hf.unmarked
    simp only [List.mem_append, not_or] at hunmarked
    simp [query, hunmarked, hp.2.2]
  rw [parse?_of_clean hf.name hs]
  change ofParts? f.scheme (splitTail (isSpecial f.scheme) _).1 (splitTail (isSpecial f.scheme) _).2.1
    (splitTail (isSpecial f.scheme) _).2.2 = _
  rw [splitTail_query hf.front hquery hf.tail]
  exact ofParts?_query _ _ _ _

/-- The parameters of a frame are the same for any two passwords, but for the password. -/
theorem Proper.parameters (hf : f.Proper) : ∃ before after : List (String × String),
    (∀ e ∈ after, e.1 ≠ "password") ∧ ∀ p, Fits p →
      Url.parameters (Percent.encode f.allowed (f.query p))
        = before ++ ("password", Percent.decodeFormPart (Percent.encode f.allowed p)) :: after := by
  obtain ⟨before, hbefore⟩ : ∃ before, ∀ rest, Url.parameters (Percent.encode f.allowed (f.before ++ rest))
      = before ++ Url.parameters (Percent.encode f.allowed rest) := by
    rcases hf.before with hnone | ⟨fields, hfields⟩
    · exact ⟨[], fun rest => by rw [hnone]; rfl⟩
    · refine ⟨Url.parameters (Percent.encode f.allowed fields), fun rest => ?_⟩
      rw [hfields, List.append_assoc, Percent.encode_append, List.singleton_append,
        Percent.encode_cons_allowed f.allowed_ampersand, parameters_append]
  refine ⟨before, Url.parameters (Percent.encode f.allowed f.after),
    passwordParameter?_eq_none_iff.mp hf.last, fun p hp => ?_⟩
  have hfield : Url.parameters (Percent.encode f.allowed f.key ++ '=' :: Percent.encode f.allowed p)
      = [("password", Percent.decodeFormPart (Percent.encode f.allowed p))] := by
    rw [← hf.named]
    exact Percent.formFields_field
      ⟨Percent.ampersand_notMem_encode hf.key.1, Percent.equals_notMem_encode hf.key.2⟩
      (Percent.ampersand_notMem_encode hp.2.1)
  rw [query, hbefore, Percent.encode_append, Percent.encode_cons_allowed f.allowed_equals,
    Percent.encode_append]
  refine congrArg (before ++ ·) ?_
  rcases hf.after with hnone | ⟨fields, hfields⟩
  · have hempty : Percent.encode f.allowed [] = [] := rfl
    rw [hnone, hempty, List.append_nil, hfield]
    rfl
  · have hassoc : ∀ key value rest : List Char,
        key ++ '=' :: (value ++ '&' :: rest) = key ++ '=' :: value ++ '&' :: rest := by simp
    rw [hfields, Percent.encode_cons_allowed f.allowed_ampersand, hassoc, parameters_append, hfield]
    exact congrArg _ (parameters_append [] _).symm

/-! ## The frame of a parameter -/

theorem exists_last_field {allowed : Char → Bool} (hmark : allowed '&' = true) {v : String} (q : List Char)
    (h : Url.passwordParameter? (Percent.encode allowed q) = some v) :
    ∃ before piece after, q = before ++ (piece ++ after) ∧ (before = [] ∨ ∃ fields, before = fields ++ ['&']) ∧
      '&' ∉ piece ∧ (after = [] ∨ ∃ fields, after = '&' :: fields) ∧
      Url.passwordParameter? (Percent.encode allowed piece) = some v ∧
      Url.passwordParameter? (Percent.encode allowed after) = none := by
  generalize hn : q.length = n
  induction n using Nat.strongRecOn generalizing q with
  | ind n ih =>
    by_cases hmem : '&' ∈ q
    · obtain ⟨piece, rest, rfl, hpiece⟩ := List.eq_append_cons_of_mem hmem
      rw [Percent.encode_append, Percent.encode_cons_allowed hmark, passwordParameter?_append] at h
      -- The last one is behind the first mark, if there is one at all.
      cases hrest : Url.passwordParameter? (Percent.encode allowed rest) with
      | some w =>
        rw [hrest, Option.some_or] at h
        obtain ⟨before, piece', after, rfl, hbefore, hlast⟩ :=
          ih rest.length (by simp [← hn]; omega) rest (hrest.trans h) rfl
        refine ⟨piece ++ '&' :: before, piece', after, by simp, .inr ?_, hlast⟩
        rcases hbefore with rfl | ⟨fields, rfl⟩
        · exact ⟨piece, rfl⟩
        · exact ⟨piece ++ '&' :: fields, by simp⟩
      | none =>
        rw [hrest, Option.none_or] at h
        refine ⟨[], piece, '&' :: rest, rfl, .inl rfl, hpiece, .inr ⟨rest, rfl⟩, h, ?_⟩
        rw [Percent.encode_cons_allowed hmark]
        exact (passwordParameter?_append [] _).trans (by rw [hrest]; rfl)
    · exact ⟨[], q, [], by simp, .inl rfl, hmem, .inl rfl, h, rfl⟩

/-- A parameter with a value is named in front of its equals sign. -/
theorem exists_key_value {allowed : Char → Bool} (hmark : allowed '=' = true) {piece : List Char} {v : String}
    (hpiece : '&' ∉ piece) (h : Url.passwordParameter? (Percent.encode allowed piece) = some v) (hv : v ≠ "") :
    ∃ key p, piece = key ++ '=' :: p ∧ '=' ∉ key ∧ p ≠ [] ∧
      Percent.decodeFormPart (Percent.encode allowed key) = "password" := by
  by_cases hmem : '=' ∈ piece
  · obtain ⟨key, p, rfl, hkey⟩ := List.eq_append_cons_of_mem hmem
    simp only [List.mem_append, List.mem_cons, not_or] at hpiece
    have hplain : ('&' ∉ Percent.encode allowed key ∧ '=' ∉ Percent.encode allowed key) ∧
        '&' ∉ Percent.encode allowed p :=
      ⟨⟨Percent.ampersand_notMem_encode hpiece.1, Percent.equals_notMem_encode hkey⟩,
        Percent.ampersand_notMem_encode hpiece.2.2⟩
    have hfield := Percent.formFields_field hplain.1 hplain.2
    rw [Percent.encode_append, Percent.encode_cons_allowed hmark, Url.passwordParameter?, Url.parameters, hfield,
      List.reverse_singleton, List.find?_singleton] at h
    split at h
    · rename_i hnamed
      cases h
      refine ⟨key, p, rfl, hkey, ?_, by simpa using hnamed⟩
      rintro rfl
      exact hv rfl
    · cases h
  · -- Without an equals sign the value is empty.
    have hplain : '=' ∉ Percent.encode allowed piece := Percent.equals_notMem_encode hmem
    have hdrop : (Percent.encode allowed piece).dropWhile (· ≠ '=') = [] := by
      rw [List.dropWhile_eq_nil_iff]
      intro c hc
      simpa using fun he : c = '=' => hplain (he ▸ hc)
    obtain ⟨e, he, rfl⟩ := Option.map_eq_some_iff.mp h
    have hmem' := List.mem_reverse.mp (List.mem_of_find?_eq_some he)
    rw [Url.parameters, Percent.formFields, String.toList_ofList,
      List.splitOn_eq_singleton (Percent.ampersand_notMem_encode hpiece), List.mem_filterMap] at hmem'
    obtain ⟨text, htext, hfield⟩ := hmem'
    obtain rfl := List.mem_singleton.mp htext
    rw [hdrop] at hfield
    obtain ⟨-, hfield⟩ := Option.ite_none_left_eq_some.mp hfield
    cases hfield
    exact absurd rfl hv

/-- Every URL with a password for a parameter has a frame for it. -/
theorem exists_of_parse? {s : String} {u : Url} {v : String} (h : Url.parse? s = some u)
    (hparameter : Url.passwordParameter? (u.query.getD []) = some v) (hv : v ≠ "") :
    ∃ (f : QueryFrame) (p : List Char), f.Proper ∧ Fits p ∧ clean s = f.text p := by
  rw [parse?_eq] at h
  obtain ⟨⟨scheme, rest⟩, hscheme, h⟩ := Option.bind_eq_some_iff.mp h
  obtain ⟨name, hname, rfl, hclean⟩ := scheme?_eq_some hscheme
  rw [ofParts?_query_eq h] at hparameter
  cases hquery : (splitTail (isSpecial (name.map Char.toLower)) rest).2.1 with
  | none =>
    rw [hquery] at hparameter
    cases hparameter
  | some query =>
    obtain ⟨front, text, tail, rfl, hfront, htext, htail, rfl⟩ := exists_of_splitTail hquery
    rw [hquery, Option.getD_some] at hparameter
    let allowed := queryAllowedIn (isSpecial (name.map Char.toLower))
    have hmarks : allowed '&' = true ∧ allowed '=' = true :=
      ⟨(⟨name, [], [], [], [], []⟩ : QueryFrame).allowed_ampersand,
        (⟨name, [], [], [], [], []⟩ : QueryFrame).allowed_equals⟩
    obtain ⟨before, piece, after, rfl, hbefore, hpiece, hafter, hvalue, hlast⟩ :=
      exists_last_field hmarks.1 text hparameter
    obtain ⟨key, p, rfl, hkey, hp, hnamed⟩ := exists_key_value hmarks.2 hpiece hvalue hv
    simp only [List.mem_append, List.mem_cons, not_or] at htext hpiece
    refine ⟨⟨name, front, before, key, after, tail⟩, p, ?_, ⟨hp, hpiece.2.2, htext.2.1.2.2⟩, ?_⟩
    · refine ⟨hname, hfront, ?_, hbefore, ⟨hpiece.1, hkey⟩, hnamed, hafter, hlast, htail⟩
      simp [htext]
    · rw [hclean, QueryFrame.text, query]
      simp

end QueryFrame

end JobTrail.Url
