import JobTrail.Proofs.Patch

/-!
# Placeholders and parameters

An update can be gathered in one pass over the allow-list: a field that the patch sets is appended to
the fields, its value to the parameters, and its assignment to the assignments, under the placeholder
that the number of parameters so far gives. The invariant of this pass ties the three lists to one
position, and compiling is the pass followed by the scoping values. So the fields are the allow-list
filtered by the keys of the stored patch, and every placeholder stands for the parameter at its place.
-/

namespace JobTrail

namespace Value

/-- The keys of a record; any other value has none. -/
def keys (v : Value) : List String := Record.keys (v.record?.getD [])

theorem get?_eq_none_iff {v : Value} {key : String} : v.get? key = none ↔ key ∉ v.keys := by
  cases v with
  | record r => exact Record.get?_eq_none_iff
  | _ => simp [get?, record?, keys]

theorem exists_get?_iff {v : Value} {key : String} : (∃ w, v.get? key = some w) ↔ key ∈ v.keys := by
  rw [← Option.isSome_iff_exists, Option.isSome_iff_ne_none, ne_eq, get?_eq_none_iff, not_not]

theorem get?_getD_record? (v : Value) (key : String) :
    Record.get? (v.record?.getD []) key = v.get? key := by
  cases v <;> rfl

theorem record?_toSnake_eq_none_iff (v : Value) : v.toSnake.record? = none ↔ v.record? = none := by
  cases v <;> simp [toSnake, transcode, record?]

end Value

namespace CompiledUpdate

variable {stored : Value} {seen allow : List String} {u : CompiledUpdate} {style : PlaceholderStyle}

/-! ## One pass over the allow-list -/

def start (style : PlaceholderStyle) : CompiledUpdate := ⟨[], [], [], style⟩

/-- One field of the pass. The placeholder is counted from the parameters that are there already. -/
def visit (stored : Value) (u : CompiledUpdate) (field : String) : CompiledUpdate :=
  match stored.get? field with
  | none => u
  | some v =>
    { u with
      fields := u.fields ++ [field]
      params := u.params ++ [v]
      assignments := u.assignments ++ [field ++ " = " ++ u.style.render u.params.length] }

def gather (allow : List String) (stored : Value) (style : PlaceholderStyle) : CompiledUpdate :=
  allow.foldl (visit stored) (start style)

/-- The invariant of the pass: one position in all three lists. -/
structure Aligned (stored : Value) (style : PlaceholderStyle) (seen : List String) (u : CompiledUpdate) :
    Prop where
  fields : u.fields = seen.filter (· ∈ stored.keys)
  params : u.params.map some = u.fields.map stored.get?
  assignments : u.assignments = u.fields.mapIdx fun i field => field ++ " = " ++ style.render i
  style : u.style = style

theorem aligned_start (stored : Value) (style : PlaceholderStyle) :
    Aligned stored style [] (start style) :=
  ⟨rfl, rfl, rfl, rfl⟩

theorem Aligned.length_params (h : Aligned stored style seen u) : u.params.length = u.fields.length := by
  simpa using congrArg List.length h.params

theorem Aligned.visit (h : Aligned stored style seen u) (field : String) :
    Aligned stored style (seen ++ [field]) (visit stored u field) := by
  have hlength := h.length_params
  unfold CompiledUpdate.visit
  cases hfound : stored.get? field with
  | none =>
    have habsent : field ∉ stored.keys := Value.get?_eq_none_iff.mp hfound
    refine ⟨?_, h.params, h.assignments, h.style⟩
    simp [h.fields, List.filter_append, habsent]
  | some v =>
    have hpresent : field ∈ stored.keys := Value.exists_get?_iff.mp ⟨v, hfound⟩
    constructor
    · simp [h.fields, List.filter_append, hpresent]
    · simp [h.params, hfound]
    · simp only [List.mapIdx_concat, h.assignments, h.style, hlength]
    · exact h.style

theorem aligned_gather (allow : List String) (stored : Value) (style : PlaceholderStyle) :
    Aligned stored style allow (gather allow stored style) := by
  have hfold : ∀ rest seen u, Aligned stored style seen u →
      Aligned stored style (seen ++ rest) (rest.foldl (CompiledUpdate.visit stored) u) := by
    intro rest
    induction rest with
    | nil =>
      intro seen u h
      simpa using h
    | cons field rest ih =>
      intro seen u h
      have hrest := ih (seen ++ [field]) (CompiledUpdate.visit stored u field) (h.visit field)
      simpa using hrest
  exact hfold allow [] (start style) (aligned_start stored style)

theorem Aligned.eq {u' : CompiledUpdate} (h : Aligned stored style seen u)
    (h' : Aligned stored style seen u') : u = u' := by
  have hfields : u.fields = u'.fields := h.fields.trans h'.fields.symm
  have hparams : u.params.map some = u'.params.map some := by rw [h.params, h'.params, hfields]
  have hassignments : u.assignments = u'.assignments := by rw [h.assignments, h'.assignments, hfields]
  have hstyle : u.style = u'.style := h.style.trans h'.style.symm
  have hvalues := List.map_injective_iff.mpr (fun _ _ h => Option.some.inj h) hparams
  cases u
  cases u'
  simp_all

/-! ## Compiling is the pass -/

theorem map_fst_patchedFields (allow : List String) (patch : Value) :
    (patchedFields allow patch).map (·.1) = allow.filter (· ∈ patch.toSnake.keys) := by
  simp only [patchedFields, Value.get?_getD_record?]
  induction allow with
  | nil => rfl
  | cons field rest ih =>
    cases hfound : patch.toSnake.get? field with
    | none =>
      have habsent : field ∉ patch.toSnake.keys := Value.get?_eq_none_iff.mp hfound
      simp [hfound, habsent, ih]
    | some v =>
      have hpresent : field ∈ patch.toSnake.keys := Value.exists_get?_iff.mp ⟨v, hfound⟩
      simp [hfound, hpresent, ih]

theorem get?_of_mem_patchedFields {patch : Value} {e : String × Value}
    (h : e ∈ patchedFields allow patch) : patch.toSnake.get? e.1 = some e.2 := by
  simp only [patchedFields, Value.get?_getD_record?, List.mem_filterMap] at h
  obtain ⟨field, -, hfield⟩ := h
  obtain ⟨v, hfound, rfl⟩ := Option.map_eq_some_iff.mp hfield
  exact hfound

theorem aligned_patchedFields (allow : List String) (patch : Value) (style : PlaceholderStyle) :
    Aligned patch.toSnake style allow
      { fields := (patchedFields allow patch).map (·.1)
        params := (patchedFields allow patch).map (·.2)
        assignments := (patchedFields allow patch).zipIdx.map fun (entry, i) =>
          entry.1 ++ " = " ++ style.render i
        style } := by
  constructor
  · exact map_fst_patchedFields allow patch
  · simp only [List.map_map]
    apply List.map_congr_left
    intro e he
    exact (get?_of_mem_patchedFields he).symm
  · simp [List.mapIdx_eq_zipIdx_map, List.zipIdx_map]
  · rfl

/-- A patch is compiled into what the pass gathers, followed by the scoping values. -/
theorem compileUpdate_eq_gather (allow : List String) (scope : List Value) (patch : Value)
    (style : PlaceholderStyle) :
    compileUpdate allow scope patch style =
      if (gather allow patch.toSnake style).fields = [] then .error .noFieldsToUpdate
      else .ok { gather allow patch.toSnake style with
        params := (gather allow patch.toSnake style).params ++ scope } := by
  rw [(aligned_gather allow patch.toSnake style).eq (aligned_patchedFields allow patch style)]
  cases hentries : patchedFields allow patch with
  | nil => simp [compileUpdate, hentries]
  | cons e rest => simp [compileUpdate, hentries]

/-! ## Every parameter under its own placeholder -/

theorem numbered_injective : Function.Injective PlaceholderStyle.numbered.render := by
  intro i j h
  have hrepr : (i + 1).repr.toList = (j + 1).repr.toList := by
    have hchars := congrArg String.toList h
    simpa [PlaceholderStyle.render] using hchars
  rw [Nat.toList_repr, Nat.toList_repr] at hrepr
  have hnumbers := congrArg (Nat.ofDigitChars 10 · 0) hrepr
  simp only [Nat.ofDigitChars_ten_toDigits] at hnumbers
  omega

/-- An update that binds the values of a stored patch and then the scoping values, each under the
placeholder of its place. -/
structure Binds (allow : List String) (scope : List Value) (stored : Value) (style : PlaceholderStyle)
    (u : CompiledUpdate) : Prop where
  fields : u.fields = allow.filter (· ∈ stored.keys)
  params : ∃ values, values.map some = u.fields.map stored.get? ∧ u.params = values ++ scope
  assignments : u.assignments = u.fields.mapIdx fun i field => field ++ " = " ++ style.render i
  scopes : ∀ n < scope.length, u.params[u.fields.length + n]? = scope[n]? ∧
    u.scopePlaceholder n = style.render (u.fields.length + n)
  numbered : style = .numbered → ∃ placeholders : List String,
    u.assignments = List.zipWith (fun field p => field ++ " = " ++ p) u.fields placeholders ∧
    placeholders ++ (List.range scope.length).map u.scopePlaceholder
      = (List.range u.params.length).map (fun i => "$" ++ (i + 1).repr) ∧
    ((List.range u.params.length).map fun i => "$" ++ (i + 1).repr).Nodup

theorem Aligned.binds (h : Aligned stored style allow u) (scope : List Value) :
    Binds allow scope stored style { u with params := u.params ++ scope } := by
  have hlength := h.length_params
  constructor
  · exact h.fields
  · exact ⟨u.params, h.params, rfl⟩
  · exact h.assignments
  · intro n hn
    constructor
    · rw [← hlength, List.getElem?_append_right (Nat.le_add_right _ _), Nat.add_sub_cancel_left]
    · simp only [scopePlaceholder, h.style]
  · rintro rfl
    refine ⟨(List.range u.fields.length).map PlaceholderStyle.numbered.render, ?_, ?_, ?_⟩
    · rw [h.assignments]
      apply List.ext_getElem
      · simp
      · intro i hi hi'
        simp
    · have hsplit : (List.range (u.params ++ scope).length)
          = List.range u.fields.length ++ (List.range scope.length).map (u.fields.length + ·) := by
        rw [List.length_append, hlength, List.range_add]
      simp only [hsplit, List.map_append, List.map_map, h.style]
      rfl
    · exact List.nodup_range.map numbered_injective

theorem binds_of_ok {scope : List Value} {patch : Value}
    (h : compileUpdate allow scope patch style = .ok u) : u.Binds allow scope patch.toSnake style := by
  rw [compileUpdate_eq_gather] at h
  split at h
  · cases h
  · cases h
    exact (aligned_gather allow patch.toSnake style).binds scope

/-- Compiling is exactly the filter of the allow-list by the keys of the stored patch, with parameters and
placeholders in step; it is refused only when nothing is left. -/
theorem compileUpdate_binds (allow : List String) (scope : List Value) (patch : Value)
    (style : PlaceholderStyle) :
    (compileUpdate allow scope patch style = .error .noFieldsToUpdate ↔
      patch.record? = none ∨ ∀ field ∈ allow, field ∉ patch.toSnake.keys) ∧
    (¬ (patch.record? = none ∨ ∀ field ∈ allow, field ∉ patch.toSnake.keys) →
      ∃ u, compileUpdate allow scope patch style = .ok u ∧ u.Binds allow scope patch.toSnake style) := by
  have haligned := aligned_gather allow patch.toSnake style
  have hempty : (gather allow patch.toSnake style).fields = [] ↔
      patch.record? = none ∨ ∀ field ∈ allow, field ∉ patch.toSnake.keys := by
    rw [haligned.fields]
    constructor
    · intro h
      right
      simpa using h
    · rintro (hrecord | hkeys)
      · have hnone := (Value.record?_toSnake_eq_none_iff patch).mpr hrecord
        simp [Value.keys, hnone]
      · simpa using hkeys
  rw [compileUpdate_eq_gather, ← hempty]
  constructor
  · constructor
    · intro h
      by_contra hne
      rw [if_neg hne] at h
      cases h
    · intro h
      rw [if_pos h]
  · intro hne
    rw [if_neg hne]
    exact ⟨_, rfl, haligned.binds scope⟩

end CompiledUpdate
end JobTrail
