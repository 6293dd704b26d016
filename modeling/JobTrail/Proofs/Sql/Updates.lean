import JobTrail.Proofs.Patch
import JobTrail.Proofs.Sql.Laws
import JobTrail.Proofs.Sql.Reading

/-!
# Reading compiled updates

The statement that a patch is compiled into spells an update of the template's table: it assigns to each
patched field the parameter at the field's place, it asks for the scope columns, and its parameters are
the patched values followed by the scoping values. So it is the same for every choice of fields.
-/

set_option maxRecDepth 8192

namespace JobTrail

namespace Sql

/-! ## Words at separators -/

/-- A word ends at a blank and at a mark, whatever is read behind them. -/
theorem tokensFrom_append {c : Char} (hc : c = ' ' ∨ (Token.ofMark? c).isSome) (word a b : List Char) :
    tokensFrom word (a ++ c :: b) = tokensFrom word a ++ tokens (c :: b) := by
  induction a generalizing word with
  | nil =>
    rcases hc with rfl | hmark
    · simp [tokens, tokensFrom, finishWord]
    · obtain ⟨mark, hmark⟩ := Option.isSome_iff_exists.mp hmark
      by_cases hblank : c = ' '
      · simp [tokens, tokensFrom, finishWord, hblank]
      · simp [tokens, tokensFrom, finishWord, hblank, hmark]
  | cons d rest ih =>
    simp only [List.cons_append, tokensFrom]
    split
    · rw [ih, List.append_assoc]
    · split
      · rw [ih, List.append_assoc, List.cons_append]
      · exact ih _

theorem tokens_blank (a b : List Char) : tokens (a ++ ' ' :: b) = tokens a ++ tokens b :=
  tokensFrom_append (.inl rfl) [] a b

theorem tokens_comma (a b : List Char) : tokens (a ++ ',' :: b) = tokens a ++ .comma :: tokens b :=
  tokensFrom_append (.inr rfl) [] a b

def Plain (cs : List Char) : Prop := ∀ c ∈ cs, c ≠ ' ' ∧ Token.ofMark? c = none

instance (cs : List Char) : Decidable (Plain cs) := List.decidableBAll _ cs

theorem tokensFrom_plain (word : List Char) {cs : List Char} (h : Plain cs) :
    tokensFrom word cs = finishWord (word ++ cs) := by
  induction cs generalizing word with
  | nil => simp [tokensFrom]
  | cons c rest ih =>
    obtain ⟨⟨hblank, hmark⟩, hrest⟩ := List.forall_mem_cons.mp h
    rw [tokensFrom, if_neg hblank, hmark]
    simpa using ih (word ++ [c]) hrest

theorem plain_of_isDigit {cs : List Char} (h : ∀ c ∈ cs, c.isDigit) : Plain cs := by
  intro c hc
  have hdigit := h c hc
  refine ⟨fun he => by simp [he] at hdigit, ?_⟩
  cases hmark : Token.ofMark? c with
  | none => rfl
  | some mark =>
    have hc : c = '(' ∨ c = ')' ∨ c = ',' := by
      unfold Token.ofMark? at hmark
      split at hmark <;> simp_all
    rcases hc with rfl | rfl | rfl <;> cases hdigit

/-! ## Parameters -/

theorem isDigit_of_mem_repr {n : Nat} {c : Char} (h : c ∈ n.repr.toList) : c.isDigit := by
  rw [Nat.toList_repr] at h
  exact Nat.isDigit_of_mem_toDigits (by decide) (by decide) h

theorem takeWhile_isDigit_repr (n : Nat) : n.repr.toList.takeWhile Char.isDigit = n.repr.toList := by
  have hdigits : ∀ c ∈ n.repr.toList, c.isDigit = true := fun c hc => isDigit_of_mem_repr hc
  rw [← List.append_nil n.repr.toList, List.takeWhile_append_of_pos hdigits]
  rfl

theorem ofParameter_repr (n : Nat) (type : List Char) :
    Token.ofParameter (n.repr.toList ++ ':' :: ':' :: type) = .parameter n (some (String.ofList type)) := by
  have hdigits : ∀ c ∈ n.repr.toList, c.isDigit = true := fun c hc => isDigit_of_mem_repr hc
  have htake : (n.repr.toList ++ ':' :: ':' :: type).takeWhile Char.isDigit = n.repr.toList := by
    rw [List.takeWhile_append_of_pos hdigits]
    simp
  have hdrop : (n.repr.toList ++ ':' :: ':' :: type).dropWhile Char.isDigit = ':' :: ':' :: type := by
    rw [List.dropWhile_append_of_pos hdigits]
    simp
  simp only [Token.ofParameter, htake, hdrop]
  rw [Nat.toList_repr, Nat.ofDigitChars_ten_toDigits]

theorem ofParameter_repr_bare (n : Nat) : Token.ofParameter n.repr.toList = .parameter n none := by
  have hdigits : ∀ c ∈ n.repr.toList, c.isDigit = true := fun c hc => isDigit_of_mem_repr hc
  have hdrop : n.repr.toList.dropWhile Char.isDigit = [] := by
    rw [← List.append_nil n.repr.toList, List.dropWhile_append_of_pos hdigits]
    rfl
  rw [Token.ofParameter, takeWhile_isDigit_repr, hdrop, Nat.toList_repr, Nat.ofDigitChars_ten_toDigits]

theorem tokens_placeholder (place : Nat) {cast : Option String} (h : ∀ type ∈ cast, Plain type.toList) :
    tokens (UpdateTemplate.withCast (PlaceholderStyle.numbered.render place) cast).toList
      = [.parameter (place + 1) cast] := by
  have hplain : Plain ('$' :: (place + 1).repr.toList) :=
    List.forall_mem_cons.mpr ⟨by decide, plain_of_isDigit fun c hc => isDigit_of_mem_repr hc⟩
  have hchars : (PlaceholderStyle.numbered.render place).toList = '$' :: (place + 1).repr.toList := by
    simp [PlaceholderStyle.render]
  cases cast with
  | none =>
    rw [UpdateTemplate.withCast, hchars, tokens, tokensFrom_plain [] hplain]
    exact congrArg (fun t => [t]) (ofParameter_repr_bare (place + 1))
  | some type =>
    have htext : (PlaceholderStyle.numbered.render place ++ "::" ++ type).toList
        = '$' :: ((place + 1).repr.toList ++ ':' :: ':' :: type.toList) := by
      simp [hchars]
    have hwhole : Plain ('$' :: ((place + 1).repr.toList ++ ':' :: ':' :: type.toList)) := by
      intro c hc
      rcases List.mem_append.mp (List.cons_append ▸ hc) with hc | hc
      · exact hplain c hc
      · rcases List.mem_append.mp (show c ∈ [':', ':'] ++ type.toList from hc) with hc | hc
        · exact (by decide : Plain [':', ':']) c hc
        · exact h type rfl c hc
    rw [UpdateTemplate.withCast, htext, tokens, tokensFrom_plain [] hwhole]
    refine congrArg (fun t => [t]) ((ofParameter_repr (place + 1) type.toList).trans ?_)
    rw [String.ofList_toList]

/-! ## Lists of assignments and conditions -/

theorem tokens_equation (left right : String) :
    tokens (left ++ " = " ++ right).toList = tokens left.toList ++ .equals :: tokens right.toList := by
  have htext : (left ++ " = " ++ right).toList = left.toList ++ ' ' :: (['='] ++ ' ' :: right.toList) := by
    simp
  rw [htext, tokens_blank, tokens_blank]
  rfl

theorem tokens_intercalate {sep : String} {mark : List Token}
    (hsep : ∀ a b, tokens (a ++ (sep.toList ++ b)) = tokens a ++ mark ++ tokens b) (pieces : List String) :
    tokens (sep.intercalate pieces).toList = mark.intercalate (pieces.map fun p => tokens p.toList) := by
  induction pieces with
  | nil => rfl
  | cons p rest ih =>
    cases rest with
    | nil => simp
    | cons q tail =>
      rw [String.intercalate_cons_cons, String.toList_append, String.toList_append, List.append_assoc,
        hsep, ih]
      simp only [List.map_cons, List.intercalate_cons_cons]

theorem tokens_commas (pieces : List String) :
    tokens (", ".intercalate pieces).toList = [Token.comma].intercalate (pieces.map fun p => tokens p.toList) := by
  refine tokens_intercalate (fun a b => ?_) pieces
  have hspace : tokens (' ' :: b) = tokens b := tokens_blank [] b
  rw [show ", ".toList ++ b = ',' :: ' ' :: b from rfl, tokens_comma, hspace, List.append_assoc]
  rfl

theorem tokens_ands (pieces : List String) :
    tokens (" AND ".intercalate pieces).toList
      = [Token.keyword .and].intercalate (pieces.map fun p => tokens p.toList) := by
  refine tokens_intercalate (fun a b => ?_) pieces
  rw [show " AND ".toList ++ b = ' ' :: (['A', 'N', 'D'] ++ ' ' :: b) from rfl, tokens_blank, tokens_blank,
    List.append_assoc]
  rfl

structure Equation where
  column : String
  place : Nat
  cast : Option String

namespace Equation

def tokens (c : Equation) : List Token := [.name c.column, .equals, .parameter (c.place + 1) c.cast]

def operand (c : Equation) : Operand := .parameter c.place c.cast

def assignment (c : Equation) : String × Operand := (c.column, c.operand)

def condition (c : Equation) : Condition := .equals c.column c.operand

theorem assignments_intercalate {cs : List Equation} (hne : cs ≠ []) {rest : List Token}
    (hrest : rest.head? ≠ some .comma) :
    assignments ([Token.comma].intercalate (cs.map tokens) ++ rest) = some (cs.map assignment, rest) := by
  induction cs with
  | nil => exact absurd rfl hne
  | cons c tail ih =>
    cases tail with
    | nil =>
      cases rest with
      | nil => simp [tokens, assignments, operand?, assignment, operand]
      | cons t more =>
        have ht : t ≠ .comma := fun he => hrest (he ▸ rfl)
        simp [tokens, assignments, operand?, assignment, operand, ht]
    | cons d more =>
      have hmore := ih (by simp)
      have hstep : ∀ ts, assignments (c.tokens ++ [Token.comma] ++ ts)
          = (assignments ts).map fun found => (c.assignment :: found.1, found.2) := by
        intro ts
        simp only [tokens, List.cons_append, List.nil_append, assignments]
        cases assignments ts <;> rfl
      rw [List.map_cons, List.map_cons, List.intercalate_cons_cons, List.append_assoc, hstep,
        ← List.map_cons, hmore]
      rfl

theorem conditions_intercalate {cs : List Equation} (hne : cs ≠ []) {rest : List Token}
    (hrest : rest.head? ≠ some (.keyword .and)) :
    conditions none ([Token.keyword .and].intercalate (cs.map tokens) ++ rest)
      = some (cs.map condition, rest) := by
  induction cs with
  | nil => exact absurd rfl hne
  | cons c tail ih =>
    cases tail with
    | nil =>
      cases rest with
      | nil => simp [tokens, conditions, condition?, column?, operand?, condition, operand]
      | cons t more =>
        have ht : t ≠ .keyword .and := fun he => hrest (he ▸ rfl)
        simp [tokens, conditions, condition?, column?, operand?, condition, operand, ht]
    | cons d more =>
      have hmore := ih (by simp)
      have hstep : ∀ ts, conditions none (c.tokens ++ [Token.keyword .and] ++ ts)
          = (conditions none ts).map fun found => (c.condition :: found.1, found.2) := by
        intro ts
        simp only [tokens, List.cons_append, List.nil_append, conditions]
        cases conditions none ts <;> rfl
      rw [List.map_cons, List.map_cons, List.intercalate_cons_cons, List.append_assoc, hstep,
        ← List.map_cons, hmore]
      rfl

def text (c : Equation) : String :=
  c.column ++ " = " ++ UpdateTemplate.withCast (PlaceholderStyle.numbered.render c.place) c.cast

def IsPlain (c : Equation) : Prop :=
  Sql.tokens c.column.toList = [.name c.column] ∧ ∀ type ∈ c.cast, Plain type.toList

theorem tokens_text {c : Equation} (h : c.IsPlain) : Sql.tokens c.text.toList = c.tokens := by
  rw [text, tokens_equation, h.1, tokens_placeholder c.place h.2]
  rfl

theorem map_tokens_text {cs : List Equation} (h : ∀ c ∈ cs, c.IsPlain) :
    (cs.map text).map (fun s => Sql.tokens s.toList) = cs.map tokens := by
  rw [List.map_map]
  exact List.map_congr_left fun c hc => tokens_text (h c hc)

end Equation
end Sql

theorem patchedFields_sublist (allow : List String) (patch : Value) :
    ((patchedFields allow patch).map (·.1)).Sublist allow := by
  rw [patchedFields]
  generalize patch.toSnake.record?.getD [] = stored
  induction allow with
  | nil => simp
  | cons field rest ih =>
    rw [List.filterMap_cons]
    cases hfound : stored.get? field with
    | none => exact ih.cons field
    | some v => exact ih.cons_cons field

namespace UpdateTemplate

open Sql

/-- The fixed texts of a template are single words, and what it answers is a list of columns. -/
structure Readable (t : UpdateTemplate) (answer : Columns) : Prop where
  table : tokens t.table.toList = [.name t.table]
  allow : ∀ field ∈ t.allow, tokens field.toList = [.name field]
  casts : ∀ c ∈ t.casts, Plain c.2.toList
  scope : ∀ c ∈ t.scope, tokens c.column.toList = [.name c.column] ∧ ∀ type ∈ c.cast, Plain type.toList
  nonempty : t.scope ≠ []
  returning : columns (tokens t.returning.toList) = some (answer, [])

def sets (t : UpdateTemplate) (fields : List String) : List Equation :=
  fields.zipIdx.map fun (field, i) => ⟨field, i, t.casts.lookup field⟩

/-- The conditions on the scope columns after a number of assignments. -/
def conditions (t : UpdateTemplate) (assigned : Nat) : List Equation :=
  t.scope.zipIdx.map fun (s, i) => ⟨s.column, assigned + i, s.cast⟩

def query (t : UpdateTemplate) (answer : Columns) (fields : List String) : Query :=
  .update t.table ((t.sets fields).map Equation.assignment)
    ((t.conditions fields.length).map Equation.condition) (some answer)

variable {t : UpdateTemplate} {answer : Columns} {fields : List String}

theorem sets_isPlain (h : t.Readable answer) (hfields : ∀ field ∈ fields, field ∈ t.allow) :
    ∀ c ∈ t.sets fields, c.IsPlain := by
  intro c hc
  obtain ⟨⟨field, i⟩, hmem, rfl⟩ := List.mem_map.mp hc
  refine ⟨h.allow field (hfields field (List.fst_mem_of_mem_zipIdx hmem)), ?_⟩
  intro type htype
  obtain ⟨d, hd, rfl⟩ : ∃ d ∈ t.casts, d.2 = type := by
    obtain ⟨before, after, hcasts, -⟩ := List.lookup_eq_some_iff.mp htype
    exact ⟨(field, type), by simp [hcasts], rfl⟩
  exact h.casts d hd

theorem conditions_isPlain (h : t.Readable answer) (assigned : Nat) :
    ∀ c ∈ t.conditions assigned, c.IsPlain := by
  intro c hc
  obtain ⟨⟨s, i⟩, hmem, rfl⟩ := List.mem_map.mp hc
  exact h.scope s (List.fst_mem_of_mem_zipIdx hmem)

def text (t : UpdateTemplate) (fields : List String) : String :=
  "UPDATE " ++ t.table ++ " SET " ++ ", ".intercalate ((t.sets fields).map Equation.text)
    ++ (" WHERE " ++ " AND ".intercalate ((t.conditions fields.length).map Equation.text))
    ++ " RETURNING " ++ t.returning

variable {scope : List Value} {patch : Value} {s : Statement}

theorem compile_of_patchedFields (h : t.scope ≠ []) (hne : patchedFields t.allow patch ≠ []) :
    t.compile scope patch = .ok ⟨t.text ((patchedFields t.allow patch).map (·.1)),
      (patchedFields t.allow patch).map (·.2) ++ scope⟩ := by
  cases hentries : patchedFields t.allow patch with
  | nil => exact absurd hentries hne
  | cons e rest =>
    have hsome : ∀ f : ScopeColumn × Nat → String, (t.scope.zipIdx.map f).isEmpty = false := by
      intro f
      cases hscope : t.scope with
      | nil => exact absurd hscope h
      | cons c cs => rfl
    simp only [compile, compileUpdate, hentries, bind, Except.bind, hsome, text, sets, conditions,
      List.map_map, List.length_map, CompiledUpdate.scopePlaceholder]
    rfl

/-- A patch is compiled exactly when it sets a field, and then into the text for its fields. -/
theorem compile_eq_ok_iff (h : t.scope ≠ []) :
    t.compile scope patch = .ok s ↔ patchedFields t.allow patch ≠ [] ∧
      s = ⟨t.text ((patchedFields t.allow patch).map (·.1)),
        (patchedFields t.allow patch).map (·.2) ++ scope⟩ := by
  constructor
  · intro hs
    have hne : patchedFields t.allow patch ≠ [] := by
      intro hnil
      simp only [compile, compileUpdate, hnil] at hs
      cases hs
    rw [compile_of_patchedFields h hne] at hs
    exact ⟨hne, (Except.ok.inj hs).symm⟩
  · rintro ⟨hne, rfl⟩
    exact compile_of_patchedFields h hne

theorem read?_text (h : t.Readable answer) (hfields : ∀ field ∈ fields, field ∈ t.allow)
    (hne : fields ≠ []) : read? (t.text fields) = some (t.query answer fields) := by
  have hsets : t.sets fields ≠ [] := by
    simpa [sets, List.zipIdx_eq_nil_iff] using hne
  have hconditions : t.conditions fields.length ≠ [] := by
    simpa [conditions, List.zipIdx_eq_nil_iff] using h.nonempty
  have htokens : tokens (t.text fields).toList
      = .keyword .update :: .name t.table :: .keyword .set
        :: ([Token.comma].intercalate ((t.sets fields).map Equation.tokens) ++ .keyword .where
          :: ([Token.keyword .and].intercalate ((t.conditions fields.length).map Equation.tokens)
            ++ .keyword .returning :: tokens t.returning.toList)) := by
    rw [← Equation.map_tokens_text (sets_isPlain h hfields), ← tokens_commas,
      ← Equation.map_tokens_text (conditions_isPlain h fields.length), ← tokens_ands]
    have htext : (t.text fields).toList = ['U', 'P', 'D', 'A', 'T', 'E'] ++ ' ' :: (t.table.toList ++ ' '
        :: (['S', 'E', 'T'] ++ ' ' :: ((", ".intercalate ((t.sets fields).map Equation.text)).toList ++ ' '
        :: (['W', 'H', 'E', 'R', 'E'] ++ ' '
        :: ((" AND ".intercalate ((t.conditions fields.length).map Equation.text)).toList ++ ' '
        :: (['R', 'E', 'T', 'U', 'R', 'N', 'I', 'N', 'G'] ++ ' ' :: t.returning.toList)))))) := by
      simp [text]
    rw [htext]
    simp only [tokens_blank, h.table]
    rfl
  rw [read?, htokens, statement, Equation.assignments_intercalate hsets (by simp)]
  simp only [Option.bind_eq_bind, Option.bind_some, filter]
  rw [Equation.conditions_intercalate hconditions (by simp)]
  simp only [Option.bind_some, answer?, h.returning, query]

/-- What a compiled patch asks for, and with which parameters. -/
theorem read?_compile (h : t.Readable answer) (hs : t.compile scope patch = .ok s) :
    read? s.sql = some (t.query answer ((patchedFields t.allow patch).map (·.1))) ∧
      s.params = (patchedFields t.allow patch).map (·.2) ++ scope ∧
      ∀ field ∈ (patchedFields t.allow patch).map (·.1), field ∈ t.allow := by
  obtain ⟨hne, rfl⟩ := (compile_eq_ok_iff h.nonempty).mp hs
  have hfields : ∀ field ∈ (patchedFields t.allow patch).map (·.1), field ∈ t.allow := by
    intro field hfield
    obtain ⟨⟨f, v⟩, hmem, rfl⟩ := List.mem_map.mp hfield
    exact (mem_patchedFields_iff.mp hmem).1
  exact ⟨read?_text h hfields (by simpa using hne), rfl, hfields⟩

/-! ## What a compiled patch assigns -/

theorem map_fst_sets (t : UpdateTemplate) (fields : List String) :
    ((t.sets fields).map Equation.assignment).map (·.1) = fields := by
  have hfst : ((fun a : String × Operand => a.1) ∘ Equation.assignment)
      ∘ (fun place : String × Nat => Equation.mk place.1 place.2 (t.casts.lookup place.1)) = Prod.fst := rfl
  rw [sets, List.map_map, List.map_map, hfst, List.zipIdx_map_fst]

/-- The parameters of a compiled update bind each patched value to its own field. -/
theorem bindSets_sets (t : UpdateTemplate) (e : Engine) (entries : List (String × Value))
    (scope : List Value) :
    bindSets e (entries.map (·.2) ++ scope) ((t.sets (entries.map (·.1))).map Equation.assignment)
      = entries.mapM fun entry =>
          (castTo e entry.2 (t.casts.lookup entry.1)).map fun w => (entry.1, fun _ => w) := by
  have hplaces : ∀ before : List Value,
      bindSets e (before ++ (entries.map (·.2) ++ scope))
        ((((entries.map (·.1)).zipIdx before.length).map fun (field, i) =>
          Equation.mk field i (t.casts.lookup field)).map Equation.assignment)
        = entries.mapM fun entry =>
            (castTo e entry.2 (t.casts.lookup entry.1)).map fun w => (entry.1, fun _ => w) := by
    induction entries with
    | nil =>
      intro before
      rfl
    | cons entry rest ih =>
      intro before
      have hplace : (before ++ (entry.2 :: (rest.map (·.2) ++ scope)))[before.length]? = some entry.2 := by
        simp
      have hrest := ih (before ++ [entry.2])
      simp only [List.append_assoc, List.singleton_append, List.length_append, List.length_singleton]
        at hrest
      rw [bindSets] at hrest
      simp only [bindSets, List.map_cons, List.zipIdx_cons, List.mapM_cons, List.cons_append, hrest]
      simp only [Equation.assignment, Equation.operand, Operand.bind, argument, hplace]
      cases castTo e entry.2 (t.casts.lookup entry.1) <;> rfl
  exact hplaces []

/-- What a compiled update makes of the rows of its table: a column is as before or has the value of the
patch, as it is cast. -/
theorem rows_patched {e : Engine} {answer : Sql.Columns} {scope : List Value} {patch : Value} {s : Statement}
    (h : t.Readable answer) (hs : t.compile scope patch = .ok s) {db db' : Database} {rows : List Record}
    (hrun : (t.query answer ((patchedFields t.allow patch).map (·.1))).run e s.params db = .ok (rows, db')) :
    (∀ table ≠ t.table, db'.rows table = db.rows table) ∧
      ∀ r' ∈ db'.rows t.table, ∃ r ∈ db.rows t.table, ∀ c, r'.column c = r.column c ∨
        ∃ v, (c, v) ∈ patchedFields t.allow patch ∧ castTo e v (t.casts.lookup c) = .ok (r'.column c) := by
  obtain ⟨-, hparams, -⟩ := read?_compile h hs
  obtain ⟨sets, test, hsets, -, rfl, -⟩ := run_update hrun
  rw [hparams, bindSets_sets] at hsets
  refine ⟨fun table hne => if_neg hne, ?_⟩
  intro r' hr'
  rw [rows_set, if_pos rfl] at hr'
  obtain ⟨r, hr, rfl⟩ := List.mem_map.mp hr'
  refine ⟨r, hr, fun c => ?_⟩
  split
  · rcases column_change_cases sets r c with hsame | ⟨set, hset, rfl, hvalue⟩
    · exact .inl hsame
    · obtain ⟨⟨field, v⟩, hmem, hcast⟩ := exists_of_mem_of_mapM_eq_ok hsets hset
      obtain ⟨w, hw, rfl⟩ := map_eq_ok.mp hcast
      exact .inr ⟨v, hmem, hvalue ▸ hw⟩
  · exact .inl rfl

end UpdateTemplate

namespace Patchable

def answered : Patchable → Sql.Columns
  | profile =>
    .these ["id", "name", "email", "linkedin_profile", "university", "major", "graduation_year",
      "resume_uri", "weekly_goal", "created_at", "updated_at"]
  | _ => .all

theorem readable (p : Patchable) : p.template.Readable p.answered := by
  cases p <;> exact ⟨by decide, by decide, by decide, by decide, by decide, by decide⟩

end Patchable
end JobTrail
