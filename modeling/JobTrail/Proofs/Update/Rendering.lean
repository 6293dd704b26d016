import JobTrail.Proofs.Update.Alignment

/-!
# The text of an update

The text of a statement lists the assignments of the compiled update once more, now with casts, and goes
on counting placeholders for the scope columns. Both lists agree: the text is made of the assignments as
they were compiled, each with the cast of its field behind it, and of the scope columns in front of the
placeholders of the scoping values.
-/

namespace JobTrail

/-- The cast behind the placeholder of a field. Of several entries for a field the first counts. -/
def castSuffix : List (String × String) → String → String
  | [], _ => ""
  | (f, type) :: rest, field => if f = field then "::" ++ type else castSuffix rest field

namespace UpdateTemplate

variable {t : UpdateTemplate} {scope : List Value} {patch : Value}

theorem withCast_lookup (placeholder : String) (casts : List (String × String)) (field : String) :
    withCast placeholder (casts.lookup field) = placeholder ++ castSuffix casts field := by
  induction casts with
  | nil => simp [castSuffix, withCast]
  | cons c rest ih =>
    obtain ⟨f, type⟩ := c
    by_cases h : f = field
    · subst h
      simp [castSuffix, withCast, String.append_assoc]
    · have hne : (field == f) = false := by simpa using Ne.symm h
      simp [castSuffix, List.lookup_cons, hne, h, ih]

theorem withCast_eq (placeholder : String) (cast : Option String) :
    withCast placeholder cast = placeholder ++ cast.elim "" ("::" ++ ·) := by
  cases cast <;> simp [withCast, String.append_assoc]

def setTexts (t : UpdateTemplate) (u : CompiledUpdate) : List String :=
  List.zipWith (fun field assignment => assignment ++ castSuffix t.casts field) u.fields u.assignments

def scopeTexts (t : UpdateTemplate) (u : CompiledUpdate) : List String :=
  t.scope.mapIdx fun n s => s.column ++ " = " ++ u.scopePlaceholder n ++ s.cast.elim "" ("::" ++ ·)

def sqlText (t : UpdateTemplate) (u : CompiledUpdate) : String :=
  "UPDATE " ++ t.table ++ " SET " ++ ", ".intercalate (t.setTexts u)
    ++ (if t.scope = [] then "" else " WHERE " ++ " AND ".intercalate (t.scopeTexts u))
    ++ " RETURNING " ++ t.returning

theorem setTexts_of_assignments {u : CompiledUpdate}
    (h : u.assignments =
      u.fields.mapIdx fun i field => field ++ " = " ++ PlaceholderStyle.numbered.render i) :
    t.setTexts u = u.fields.zipIdx.map fun (field, i) =>
      field ++ " = " ++ withCast (PlaceholderStyle.numbered.render i) (t.casts.lookup field) := by
  rw [setTexts, h]
  apply List.ext_getElem
  · simp
  · intro i hi hi'
    simp [withCast_lookup, String.append_assoc]

theorem scopeTexts_eq (t : UpdateTemplate) (u : CompiledUpdate) :
    t.scopeTexts u = t.scope.zipIdx.map fun (s, i) =>
      s.column ++ " = " ++ withCast (u.scopePlaceholder i) s.cast := by
  rw [scopeTexts, List.mapIdx_eq_zipIdx_map]
  apply List.map_congr_left
  rintro ⟨s, i⟩ _
  simp only [withCast_eq, String.append_assoc]

theorem compile_eq_map (t : UpdateTemplate) (scope : List Value) (patch : Value) :
    t.compile scope patch =
      (compileUpdate t.allow scope patch .numbered).map fun u => ⟨t.sqlText u, u.params⟩ := by
  cases hu : compileUpdate t.allow scope patch .numbered with
  | error err => simp only [compile, hu, bind, Except.bind, Except.map]
  | ok u =>
    have hassignments := (CompiledUpdate.binds_of_ok hu).assignments
    have hempty : (t.scope.zipIdx.map fun (s, i) =>
        s.column ++ " = " ++ withCast (u.scopePlaceholder i) s.cast).isEmpty = true ↔ t.scope = [] := by
      simp [List.zipIdx_eq_nil_iff]
    simp only [compile, hu, bind, Except.bind, Except.map, sqlText, setTexts_of_assignments hassignments,
      scopeTexts_eq, hempty]

/-- The text agrees with the compiled update: it fails where compiling fails, binds the same parameters,
and spells the compiled assignments; without casts these are the fragment of the update. -/
theorem text_agrees_with_update (t : UpdateTemplate) (scope : List Value) (patch : Value) :
    t.compile scope patch = (compileUpdate t.allow scope patch .numbered).map (fun u =>
      ⟨"UPDATE " ++ t.table ++ " SET " ++ ", ".intercalate (t.setTexts u)
        ++ (if t.scope = [] then "" else " WHERE " ++ " AND ".intercalate (t.scopeTexts u))
        ++ " RETURNING " ++ t.returning, u.params⟩) ∧
    (t.casts = [] → ∀ u, compileUpdate t.allow scope patch .numbered = .ok u →
      ", ".intercalate (t.setTexts u) = u.fragment) := by
  constructor
  · exact compile_eq_map t scope patch
  · intro hcasts u hu
    have hassignments := (CompiledUpdate.binds_of_ok hu).assignments
    have hplain : t.setTexts u = u.assignments := by
      rw [setTexts, hcasts, hassignments]
      apply List.ext_getElem
      · simp
      · intro i hi hi'
        simp [castSuffix]
    rw [hplain, CompiledUpdate.fragment]

end UpdateTemplate
end JobTrail
