import JobTrail.Proofs.Text.Splitting
import JobTrail.Url

/-!
# Parts of a URL

How the text of a URL falls apart: the scheme up to its colon, the part in front of query and fragment, and
the two of them. What is put together from such parts is taken apart into the same ones.
-/

namespace JobTrail.Url

variable {special : Bool} {cs rest : List Char}

/-! ## Parsing behind the scheme -/

/-- The name of a scheme, in either case. -/
structure IsSchemeName (name : List Char) : Prop where
  first : ∃ c ∈ name.head?, c.isAlpha
  chars : ∀ c ∈ name, c.isAlphanum ∨ c = '+' ∨ c = '-' ∨ c = '.'

theorem IsSchemeName.colon_notMem {name : List Char} (h : IsSchemeName name) : ':' ∉ name := by
  intro hmem
  exact absurd (h.chars ':' hmem) (by decide)

theorem scheme?_append {name : List Char} (h : IsSchemeName name) (rest : List Char) :
    scheme? (name ++ ':' :: rest) = some (name.map Char.toLower, rest) := by
  obtain ⟨c, hc, halpha⟩ := h.first
  have hall : (c.isAlpha ∧ name.all fun c => c.isAlphanum ∨ c = '+' ∨ c = '-' ∨ c = '.') := by
    refine ⟨halpha, List.all_eq_true.mpr fun d hd => ?_⟩
    simpa using h.chars d hd
  rw [scheme?, splitFirst_append h.colon_notMem]
  simp only [Option.bind_eq_bind, Option.bind_some, Option.mem_def.mp hc, if_pos hall]

theorem scheme?_eq_some {scheme : List Char} (h : scheme? cs = some (scheme, rest)) :
    ∃ name, IsSchemeName name ∧ scheme = name.map Char.toLower ∧ cs = name ++ ':' :: rest := by
  obtain ⟨⟨name, tail⟩, hsplit, h⟩ := Option.bind_eq_some_iff.mp h
  obtain ⟨first, hfirst, h⟩ := Option.bind_eq_some_iff.mp h
  obtain ⟨⟨halpha, hall⟩, hsame⟩ := Option.ite_none_right_eq_some.mp h
  cases hsame
  refine ⟨name, ⟨⟨first, hfirst, halpha⟩, fun c hc => ?_⟩, rfl, (splitFirst_eq_some hsplit).1⟩
  simpa using List.all_eq_true.mp hall c hc

/-- A URL from the scheme and the parts of the text behind it. -/
def ofParts? (scheme front : List Char) (query fragment : Option (List Char)) : Option Url :=
  if String.ofList scheme = "file" then file? scheme front query fragment
  else if isSpecial scheme then
    withAuthority? scheme (front.dropWhile (isSlash true)) query fragment
  else
    match front with
    | '/' :: '/' :: tail => withAuthority? scheme tail query fragment
    | '/' :: tail =>
      some ⟨scheme, [], [], none, none, .segments (segments false tail), query, fragment⟩
    | text =>
      let encoded := Percent.encode (fun c => 0x20 ≤ c.toNat ∧ c.toNat < 0x7F) text
      some ⟨scheme, [], [], none, none, .plain encoded, query, fragment⟩

theorem parse?_eq (s : String) : parse? s = (scheme? (clean s)).bind fun p =>
    let tail := splitTail (isSpecial p.1) p.2
    ofParts? p.1 tail.1 tail.2.1 tail.2.2 := rfl

theorem parse?_of_clean {s : String} {name rest : List Char} (hname : IsSchemeName name)
    (hs : clean s = name ++ ':' :: rest) :
    parse? s = (let scheme := name.map Char.toLower
      let tail := splitTail (isSpecial scheme) rest
      ofParts? scheme tail.1 tail.2.1 tail.2.2) := by
  rw [parse?_eq, hs, scheme?_append hname, Option.bind_some]

/-! ## Query and fragment -/

/-- The characters that a query may have as they are. -/
def queryAllowedIn (special : Bool) : Char → Bool := if special then specialQueryAllowed else queryAllowed

/-- What comes before the first mark of a query or a fragment stays in front. -/
theorem splitTail_append {front : List Char} (h : '?' ∉ front ∧ '#' ∉ front) (cs : List Char) :
    splitTail special (front ++ cs) = (front ++ (splitTail special cs).1, (splitTail special cs).2) := by
  unfold splitTail
  rw [splitFirst_append_of_notMem h.2]
  cases hhash : splitFirst '#' cs with
  | none =>
    simp only [Option.map_none]
    rw [splitFirst_append_of_notMem h.1]
    cases splitFirst '?' cs <;> rfl
  | some p =>
    simp only [Option.map_some]
    rw [splitFirst_append_of_notMem h.1]
    cases splitFirst '?' p.1 <;> rfl

/-- The query goes on to the fragment. -/
theorem splitTail_query {front query tail : List Char} (hfront : '?' ∉ front ∧ '#' ∉ front) (hquery : '#' ∉ query)
    (htail : ∀ c ∈ tail.head?, c = '#') :
    splitTail special (front ++ '?' :: (query ++ tail))
      = (front, some (Percent.encode (queryAllowedIn special) query), (splitTail special tail).2.2) := by
  rw [splitTail_append hfront]
  have hmark : '#' ∉ '?' :: query := by simp [hquery]
  have hsplit : ∀ rest, splitFirst '?' ('?' :: rest) = some ([], rest) :=
    splitFirst_append List.not_mem_nil
  cases tail with
  | nil =>
    have hnone : splitFirst '#' ('?' :: query) = none := splitFirst_of_notMem hmark
    simp only [List.append_nil, splitTail, hnone, hsplit]
    rfl
  | cons c tail =>
    obtain rfl := htail c rfl
    have hsome : splitFirst '#' ('?' :: (query ++ '#' :: tail)) = some ('?' :: query, tail) :=
      splitFirst_append hmark tail
    have hsome' : splitFirst '#' ('#' :: tail) = some ([], tail) := splitFirst_append List.not_mem_nil tail
    simp only [List.append_nil, splitTail, hsome, hsome', hsplit]
    rfl

/-- A query stands between its mark and the fragment. -/
theorem exists_of_splitTail {query : List Char} (h : (splitTail special cs).2.1 = some query) :
    ∃ front text tail, cs = front ++ '?' :: (text ++ tail) ∧ ('?' ∉ front ∧ '#' ∉ front) ∧ '#' ∉ text ∧
      (∀ c ∈ tail.head?, c = '#') ∧ query = Percent.encode (queryAllowedIn special) text := by
  have hquery : ∀ {front : List Char}, '#' ∉ front →
      ((splitFirst '?' front).map fun p => Percent.encode (queryAllowedIn special) p.2) = some query →
        ∃ before text, front = before ++ '?' :: text ∧ ('?' ∉ before ∧ '#' ∉ before) ∧ '#' ∉ text ∧
          query = Percent.encode (queryAllowedIn special) text := by
    intro front hhash hsome
    obtain ⟨⟨before, text⟩, hsplit, rfl⟩ := Option.map_eq_some_iff.mp hsome
    obtain ⟨rfl, hbefore⟩ := splitFirst_eq_some hsplit
    simp only [List.mem_append, List.mem_cons, not_or] at hhash
    exact ⟨before, text, rfl, ⟨hbefore, hhash.1⟩, hhash.2.2, rfl⟩
  by_cases hmem : '#' ∈ cs
  · obtain ⟨front, tail, rfl, hhash⟩ := List.eq_append_cons_of_mem hmem
    obtain ⟨before, text, rfl, hbefore, htext, hencoded⟩ := hquery hhash (by
      rw [← h, splitTail, splitFirst_append hhash]
      dsimp only
      cases splitFirst '?' front <;> rfl)
    exact ⟨before, text, '#' :: tail, by simp, hbefore, htext, by simp, hencoded⟩
  · obtain ⟨before, text, rfl, hbefore, htext, hencoded⟩ := hquery hmem (by
      rw [← h, splitTail, splitFirst_of_notMem hmem]
      dsimp only
      cases splitFirst '?' cs <;> rfl)
    exact ⟨before, text, [], by simp, hbefore, htext, by simp, hencoded⟩

def isTailMark (c : Char) : Bool := c == '?' || c == '#'

theorem splitTail_mark {c : Char} (h : isTailMark c) (rest : List Char) :
    (splitTail special (c :: rest)).1 = [] := by
  have hhash : ∀ rest, splitFirst '#' ('#' :: rest) = some ([], rest) := splitFirst_append List.not_mem_nil
  have hquestion : ∀ rest, splitFirst '?' ('?' :: rest) = some ([], rest) := splitFirst_append List.not_mem_nil
  rw [isTailMark, Bool.or_eq_true, beq_iff_eq, beq_iff_eq] at h
  rcases h with rfl | rfl
  · have hkept : splitFirst '#' ('?' :: rest) = (splitFirst '#' rest).map fun p => ('?' :: p.1, p.2) :=
      splitFirst_append_of_notMem (mt List.mem_singleton.mp (by decide)) rest
    rw [splitTail, hkept]
    cases splitFirst '#' rest with
    | none => simp only [Option.map_none, hquestion]
    | some p => simp only [Option.map_some, hquestion]
  · simp only [splitTail, hhash]
    rfl

/-- What comes before query and fragment ends at the first mark of either. -/
theorem splitTail_fst (special : Bool) (cs : List Char) :
    (splitTail special cs).1 = cs.takeWhile (!isTailMark ·) := by
  have hplain : ∀ c ∈ cs.takeWhile (!isTailMark ·), isTailMark c = false := by
    intro c hc
    simpa using List.mem_takeWhile_imp hc
  have hfront : '?' ∉ cs.takeWhile (!isTailMark ·) ∧ '#' ∉ cs.takeWhile (!isTailMark ·) :=
    ⟨fun hc => absurd (hplain _ hc) (by decide), fun hc => absurd (hplain _ hc) (by decide)⟩
  conv_lhs => rw [← List.takeWhile_append_dropWhile (p := (!isTailMark ·)) (l := cs), splitTail_append hfront]
  cases hrest : cs.dropWhile (!isTailMark ·) with
  | nil => exact List.append_nil _
  | cons c rest =>
    rw [splitTail_mark (of_dropWhile_not_eq_cons hrest), List.append_nil]

/-- A file URL has no password. -/
theorem file?_eq_some {scheme : List Char} {query fragment : Option (List Char)} {u : Url}
    (h : file? scheme cs query fragment = some u) : u.password = [] ∧ u.query = query := by
  unfold file? at h
  dsimp only at h
  rcases ite_eq_iff.mp h with ⟨-, h⟩ | ⟨-, h⟩
  all_goals
    obtain ⟨host, -, h⟩ := Option.bind_eq_some_iff.mp h
    cases h
    exact ⟨rfl, rfl⟩

end JobTrail.Url
