import JobTrail.Proofs.Sql.Updates

/-!
# Placeholders of statements

A placeholder is a dollar sign with the number of a parameter, and the number goes on for as long as digits
follow. A statement is numbered when the placeholders in its text are those of its parameters, each of them
and no other. Of a fixed text this is read off its characters; of a compiled update it follows from the
places that its assignments and conditions take, whichever fields a patch sets.
-/

set_option maxRecDepth 8192

namespace JobTrail

namespace Sql

variable {cs : List Char}

/-- The dollar sign and the number stand in a text, and the number ends there. -/
def HasPlaceholder (k : Nat) (cs : List Char) : Prop :=
  ∃ before after, cs = before ++ '$' :: (k.repr.toList ++ after) ∧ ∀ c ∈ after.head?, c.isDigit = false

/-- The digits behind each dollar sign of a text. -/
def digitRuns : List Char → List (List Char)
  | [] => []
  | c :: rest => if c = '$' then rest.takeWhile Char.isDigit :: digitRuns rest else digitRuns rest

theorem mem_digitRuns_iff {ds : List Char} :
    ds ∈ digitRuns cs ↔ ∃ before after, cs = before ++ '$' :: after ∧ ds = after.takeWhile Char.isDigit := by
  induction cs with
  | nil => simp [digitRuns]
  | cons c rest ih =>
    constructor
    · intro h
      have hlater : ds ∈ digitRuns rest → ∃ before after,
          c :: rest = before ++ '$' :: after ∧ ds = after.takeWhile Char.isDigit := by
        intro h
        obtain ⟨before, after, rfl, hds⟩ := ih.mp h
        exact ⟨c :: before, after, rfl, hds⟩
      by_cases hc : c = '$'
      · rw [digitRuns, if_pos hc] at h
        rcases List.mem_cons.mp h with hds | h
        · exact ⟨[], rest, by rw [hc]; rfl, hds⟩
        · exact hlater h
      · rw [digitRuns, if_neg hc] at h
        exact hlater h
    · rintro ⟨before, after, hcs, rfl⟩
      cases before with
      | nil =>
        obtain ⟨rfl, rfl⟩ := List.cons.inj hcs
        simp [digitRuns]
      | cons b before =>
        have hmem := ih.mpr ⟨before, after, (List.cons.inj hcs).2, rfl⟩
        rw [digitRuns]
        split
        · exact List.mem_cons_of_mem _ hmem
        · exact hmem

theorem takeWhile_isDigit_append {ds after : List Char} (h : ∀ c ∈ after.head?, c.isDigit = false) :
    (ds ++ after).takeWhile Char.isDigit = ds.takeWhile Char.isDigit := by
  have hnone : after.takeWhile Char.isDigit = [] := by
    cases after with
    | nil => rfl
    | cons c rest => rw [List.takeWhile_cons_of_neg (by simp [h c rfl])]
  rw [List.takeWhile_append, hnone, List.append_nil]
  split
  · rename_i hall
    exact ((List.takeWhile_prefix _).eq_of_length hall).symm
  · rfl

theorem hasPlaceholder_iff {k : Nat} : HasPlaceholder k cs ↔ k.repr.toList ∈ digitRuns cs := by
  rw [mem_digitRuns_iff]
  constructor
  · rintro ⟨before, after, rfl, hafter⟩
    refine ⟨before, _, rfl, ?_⟩
    rw [takeWhile_isDigit_append hafter, takeWhile_isDigit_repr]
  · rintro ⟨before, after, rfl, hk⟩
    refine ⟨before, after.dropWhile Char.isDigit, ?_, ?_⟩
    · rw [hk, List.takeWhile_append_dropWhile]
    · intro c hc
      have hhead := List.head?_dropWhile_not Char.isDigit after
      rw [Option.mem_def.mp hc] at hhead
      exact hhead

/-! ## Texts in pieces -/

/-- A number does not go on in a piece that begins with no digit. -/
theorem digitRuns_append {a b : List Char} (h : ∀ c ∈ b.head?, c.isDigit = false) :
    digitRuns (a ++ b) = digitRuns a ++ digitRuns b := by
  induction a with
  | nil => rfl
  | cons c rest ih =>
    simp only [List.cons_append, digitRuns, ih, takeWhile_isDigit_append h]
    split <;> rfl

theorem digitRuns_eq_nil (h : '$' ∉ cs) : digitRuns cs = [] := by
  induction cs with
  | nil => rfl
  | cons c rest ih =>
    have hc : c ≠ '$' := fun hc => h (by simp [hc])
    rw [digitRuns, if_neg hc, ih fun hrest => h (.tail c hrest)]

theorem digitRuns_append_of_not_mem {a b : List Char} (h : '$' ∉ a) :
    digitRuns (a ++ b) = digitRuns b := by
  induction a with
  | nil => rfl
  | cons c rest ih =>
    have hc : c ≠ '$' := fun hc => h (by simp [hc])
    rw [List.cons_append, digitRuns, if_neg hc, ih fun hrest => h (.tail c hrest)]

theorem digitRuns_intercalate {sep : String} (hdigit : ∀ c ∈ sep.toList.head?, c.isDigit = false)
    (hdollar : '$' ∉ sep.toList) (hne : sep.toList ≠ []) (pieces : List String) :
    digitRuns (sep.intercalate pieces).toList = pieces.flatMap fun p => digitRuns p.toList := by
  induction pieces with
  | nil => rfl
  | cons p rest ih =>
    cases rest with
    | nil => simp
    | cons q tail =>
      have hhead : ∀ c ∈ (sep.toList ++ (sep.intercalate (q :: tail)).toList).head?, c.isDigit = false := by
        rw [List.head?_append_of_ne_nil _ hne]
        exact hdigit
      rw [String.intercalate_cons_cons, String.toList_append, String.toList_append, List.append_assoc,
        digitRuns_append hhead, digitRuns_append_of_not_mem hdollar, ih]
      rfl

namespace Equation

def Dollarless (c : Equation) : Prop := '$' ∉ c.column.toList ∧ ∀ type ∈ c.cast, '$' ∉ type.toList

/-- The one number in an equation is that of its parameter. -/
theorem digitRuns_text {c : Equation} (h : c.Dollarless) :
    digitRuns c.text.toList = [(c.place + 1).repr.toList] := by
  have hrender : digitRuns ('$' :: (c.place + 1).repr.toList) = [(c.place + 1).repr.toList] := by
    have hdollar : '$' ∉ (c.place + 1).repr.toList := fun hmem => nomatch isDigit_of_mem_repr hmem
    rw [digitRuns, if_pos rfl, takeWhile_isDigit_repr, digitRuns_eq_nil hdollar]
  have hcast : digitRuns (UpdateTemplate.withCast (PlaceholderStyle.numbered.render c.place) c.cast).toList
      = [(c.place + 1).repr.toList] := by
    cases htype : c.cast with
    | none => simpa [UpdateTemplate.withCast, PlaceholderStyle.render] using hrender
    | some type =>
      have htail : '$' ∉ ':' :: ':' :: type.toList := by simpa using h.2 type htype
      have happend := digitRuns_append (a := '$' :: (c.place + 1).repr.toList) (b := ':' :: ':' :: type.toList)
        (by simp)
      rw [hrender, digitRuns_eq_nil htail] at happend
      simpa [UpdateTemplate.withCast, PlaceholderStyle.render] using happend
  have hcolumn : '$' ∉ c.column.toList ++ " = ".toList := by simpa using h.1
  rw [text, String.toList_append, String.toList_append, digitRuns_append_of_not_mem hcolumn, hcast]

end Equation
end Sql

open Sql

/-- The placeholders in the text of a statement are those of its parameters. -/
def Statement.Numbered (s : Statement) : Prop :=
  ∀ k, HasPlaceholder k s.sql.toList ↔ 1 ≤ k ∧ k ≤ s.params.length

namespace Statement

theorem repr_toList_inj {m n : Nat} (h : m.repr.toList = n.repr.toList) : m = n := by
  rw [Nat.toList_repr, Nat.toList_repr] at h
  simpa only [Nat.ofDigitChars_ten_toDigits] using congrArg (fun ds => Nat.ofDigitChars 10 ds 0) h

theorem numbered_of_digitRuns {s : Statement}
    (h : ∀ ds, ds ∈ digitRuns s.sql.toList ↔ ∃ i < s.params.length, (i + 1).repr.toList = ds) :
    s.Numbered := by
  intro k
  rw [hasPlaceholder_iff, h]
  constructor
  · rintro ⟨i, hi, hk⟩
    obtain rfl := repr_toList_inj hk
    omega
  · rintro ⟨hone, hk⟩
    exact ⟨k - 1, by omega, by rw [Nat.sub_add_cancel hone]⟩

/-- The check on the characters of a fixed text. -/
def numbersTo (n : Nat) (cs : List Char) : Bool :=
  (digitRuns cs).all (fun ds => (List.range n).any fun i => Nat.toDigits 10 (i + 1) = ds)
    && (List.range n).all fun i => Nat.toDigits 10 (i + 1) ∈ digitRuns cs

theorem numbered_of_spells {sql : String} {cs : List Char} {params : List Value} (htext : Spells sql cs)
    (n : Nat) (hcheck : numbersTo n cs = true) (hlength : params.length = n) : Numbered ⟨sql, params⟩ := by
  subst hlength
  apply numbered_of_digitRuns
  obtain ⟨hnone, hall⟩ := (Bool.and_eq_true _ _).mp hcheck
  intro ds
  rw [htext]
  constructor
  · intro hds
    obtain ⟨i, hi, hrepr⟩ := List.any_eq_true.mp (List.all_eq_true.mp hnone ds hds)
    exact ⟨i, List.mem_range.mp hi, by rw [Nat.toList_repr]; exact of_decide_eq_true hrepr⟩
  · rintro ⟨i, hi, rfl⟩
    rw [Nat.toList_repr]
    exact of_decide_eq_true (List.all_eq_true.mp hall i (List.mem_range.mpr hi))

end Statement

namespace UpdateTemplate

/-- No dollar sign stands in the fixed texts of a template. -/
def Dollarless (t : UpdateTemplate) : Prop :=
  ∀ text ∈ [t.table, t.returning] ++ t.allow ++ t.casts.map (·.2)
    ++ t.scope.flatMap fun c => c.column :: c.cast.toList, '$' ∉ text.toList

instance (t : UpdateTemplate) : Decidable t.Dollarless := List.decidableBAll _ _

variable {t : UpdateTemplate} {fields : List String}

theorem sets_dollarless (h : t.Dollarless) (hfields : ∀ field ∈ fields, field ∈ t.allow) :
    ∀ c ∈ t.sets fields, c.Dollarless := by
  intro c hc
  obtain ⟨⟨field, i⟩, hmem, rfl⟩ := List.mem_map.mp hc
  refine ⟨h field (by simp [hfields field (List.fst_mem_of_mem_zipIdx hmem)]), ?_⟩
  intro type htype
  obtain ⟨before, after, hcasts, -⟩ := List.lookup_eq_some_iff.mp htype
  exact h type (by simp [hcasts])

theorem conditions_dollarless (h : t.Dollarless) (assigned : Nat) :
    ∀ c ∈ t.conditions assigned, c.Dollarless := by
  intro c hc
  obtain ⟨⟨s, i⟩, hmem, rfl⟩ := List.mem_map.mp hc
  have hs := List.fst_mem_of_mem_zipIdx hmem
  have hpart : ∀ text ∈ s.column :: s.cast.toList, '$' ∉ text.toList := fun text htext =>
    h text (List.mem_append_right _ (List.mem_flatMap.mpr ⟨s, hs, htext⟩))
  exact ⟨hpart _ List.mem_cons_self, fun type htype =>
    hpart type (List.mem_cons_of_mem _ (Option.mem_toList.mpr htype))⟩

theorem digitRuns_text (h : t.Dollarless) (hfields : ∀ field ∈ fields, field ∈ t.allow) :
    digitRuns (t.text fields).toList
      = (t.sets fields ++ t.conditions fields.length).map fun c => (c.place + 1).repr.toList := by
  have hequations : ∀ cs : List Equation, (∀ c ∈ cs, c.Dollarless) →
      (cs.map Equation.text).flatMap (fun p => digitRuns p.toList)
        = cs.map fun c => (c.place + 1).repr.toList := by
    intro cs hcs
    induction cs with
    | nil => rfl
    | cons c rest ih =>
      obtain ⟨hc, hrest⟩ := List.forall_mem_cons.mp hcs
      rw [List.map_cons, List.flatMap_cons, Equation.digitRuns_text hc, ih hrest]
      rfl
  have hsets : digitRuns (", ".intercalate ((t.sets fields).map Equation.text)).toList
      = (t.sets fields).map fun c => (c.place + 1).repr.toList := by
    rw [digitRuns_intercalate (by simp) (by decide) (by decide), hequations _ (sets_dollarless h hfields)]
  have hconditions : digitRuns (" AND ".intercalate ((t.conditions fields.length).map Equation.text)).toList
      = (t.conditions fields.length).map fun c => (c.place + 1).repr.toList := by
    rw [digitRuns_intercalate (by simp) (by decide) (by decide), hequations _ (conditions_dollarless h _)]
  have hupdate : '$' ∉ "UPDATE ".toList ++ (t.table.toList ++ " SET ".toList) := by
    have htable := h t.table (by simp)
    simpa using htable
  have hreturning : '$' ∉ " RETURNING ".toList ++ t.returning.toList := by
    have hreturning := h t.returning (by simp)
    simpa using hreturning
  have htext : (t.text fields).toList = ("UPDATE ".toList ++ (t.table.toList ++ " SET ".toList))
      ++ ((", ".intercalate ((t.sets fields).map Equation.text)).toList ++ (" WHERE ".toList
        ++ ((" AND ".intercalate ((t.conditions fields.length).map Equation.text)).toList
          ++ (" RETURNING ".toList ++ t.returning.toList)))) := by
    simp [text]
  rw [htext, digitRuns_append_of_not_mem hupdate, digitRuns_append (by simp), hsets,
    digitRuns_append_of_not_mem (a := " WHERE ".toList) (by decide), digitRuns_append (by simp), hconditions,
    digitRuns_eq_nil hreturning, List.append_nil, List.map_append]

theorem map_place_equations (t : UpdateTemplate) (fields : List String) :
    (t.sets fields ++ t.conditions fields.length).map (·.place)
      = List.range (fields.length + t.scope.length) := by
  have hsets : (t.sets fields).map (·.place) = List.range fields.length := by
    rw [sets, List.map_map, List.range_eq_range']
    exact List.zipIdx_map_snd 0 fields
  have hconditions : (t.conditions fields.length).map (·.place)
      = (List.range t.scope.length).map (fields.length + ·) := by
    rw [conditions, List.map_map, List.range_eq_range', ← List.zipIdx_map_snd 0 t.scope, List.map_map]
    rfl
  rw [List.map_append, hsets, hconditions, List.range_add]

/-- The assignments of a patch and the conditions on the row take one place each, in order. -/
theorem numbered_compile {scope : List Value} {patch : Value} {s : Statement} (h : t.Dollarless)
    (hne : t.scope ≠ []) (hlength : scope.length = t.scope.length) (hs : t.compile scope patch = .ok s) :
    s.Numbered := by
  obtain ⟨-, rfl⟩ := (compile_eq_ok_iff hne).mp hs
  have hfields : ∀ field ∈ (patchedFields t.allow patch).map (·.1), field ∈ t.allow := fun _ hfield =>
    (patchedFields_sublist t.allow patch).subset hfield
  apply Statement.numbered_of_digitRuns
  intro ds
  have hplaces := map_place_equations t ((patchedFields t.allow patch).map (·.1))
  have hruns : digitRuns (t.text ((patchedFields t.allow patch).map (·.1))).toList
      = (List.range ((patchedFields t.allow patch).length + t.scope.length)).map
          fun i => (i + 1).repr.toList := by
    rw [List.length_map] at hplaces
    rw [digitRuns_text h hfields, List.length_map, ← hplaces, List.map_map]
    rfl
  rw [hruns, List.mem_map, List.length_append, List.length_map, hlength]
  simp only [List.mem_range]

end UpdateTemplate
end JobTrail
