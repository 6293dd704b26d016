import JobTrail.Text.Blank
import Mathlib

/-!
# Splitting at a mark

What comes before a mark that it does not hold itself is what the split at the first such mark finds. What is
taken off the end of a text is the mark over and over.
-/

namespace JobTrail

variable {mark : Char} {cs before after : List Char}

theorem splitFirst_append (h : mark ∉ before) (after : List Char) :
    splitFirst mark (before ++ mark :: after) = some (before, after) := by
  induction before with
  | nil => simp [splitFirst]
  | cons c before ih =>
    obtain ⟨hc, hbefore⟩ := List.ne_and_not_mem_of_not_mem_cons h
    rw [List.cons_append, splitFirst, if_neg (Ne.symm hc), ih hbefore]
    rfl

theorem splitFirst_of_notMem (h : mark ∉ cs) : splitFirst mark cs = none := by
  induction cs with
  | nil => rfl
  | cons c cs ih =>
    obtain ⟨hc, hcs⟩ := List.ne_and_not_mem_of_not_mem_cons h
    rw [splitFirst, if_neg (Ne.symm hc), ih hcs]
    rfl

theorem splitFirst_append_of_notMem (h : mark ∉ before) (cs : List Char) :
    splitFirst mark (before ++ cs) = (splitFirst mark cs).map fun p => (before ++ p.1, p.2) := by
  induction before with
  | nil => simp
  | cons c before ih =>
    obtain ⟨hc, hbefore⟩ := List.ne_and_not_mem_of_not_mem_cons h
    rw [List.cons_append, splitFirst, if_neg (Ne.symm hc), ih hbefore, Option.map_map]
    rfl

theorem splitFirst_eq_some (h : splitFirst mark cs = some (before, after)) :
    cs = before ++ mark :: after ∧ mark ∉ before := by
  by_cases hmem : mark ∈ cs
  · obtain ⟨front, back, rfl, hfront⟩ := List.eq_append_cons_of_mem hmem
    rw [splitFirst_append hfront] at h
    cases h
    exact ⟨rfl, hfront⟩
  · rw [splitFirst_of_notMem hmem] at h
    cases h

theorem count_append_cons_eq_one_iff :
    (before ++ mark :: after).count mark = 1 ↔ mark ∉ before ∧ mark ∉ after := by
  rw [List.count_append, List.count_cons_self, ← List.count_eq_zero, ← List.count_eq_zero]
  omega

theorem head?_append_cons_ne_iff (h : mark ∉ before) :
    (before ++ mark :: after).head? ≠ some mark ↔ before ≠ [] := by
  cases before with
  | nil => simp
  | cons c before => simpa using Ne.symm (List.ne_of_not_mem_cons h)

theorem getLast?_append_cons_ne_iff :
    (before ++ mark :: after).getLast? ≠ some mark ↔ after ≠ [] ∧ after.getLast? ≠ some mark := by
  cases after with
  | nil => simp
  | cons c after => simp [List.getLast?_append, List.getLast?_cons_cons]

theorem takeWhile_append_cons {p : Char → Bool} {c : Char} (hbefore : ∀ c ∈ before, p c) (hc : p c = false)
    (after : List Char) :
    (before ++ c :: after).takeWhile p = before ∧ (before ++ c :: after).dropWhile p = c :: after := by
  rw [List.takeWhile_append_of_pos hbefore, List.dropWhile_append_of_pos hbefore,
    List.takeWhile_cons_of_neg (by simp [hc]), List.dropWhile_cons_of_neg (by simp [hc]), List.append_nil]
  exact ⟨rfl, rfl⟩

theorem takeWhile_all {p : Char → Bool} (h : ∀ c ∈ cs, p c) : cs.takeWhile p = cs ∧ cs.dropWhile p = [] :=
  ⟨List.takeWhile_eq_self_iff.mpr h, List.dropWhile_eq_nil_iff.mpr h⟩

/-- Up to a mark everything is dropped, so what is left begins with one. -/
theorem of_dropWhile_not_eq_cons {p : Char → Bool} {c : Char} {rest : List Char}
    (h : cs.dropWhile (!p ·) = c :: rest) : p c := by
  have hhead := List.head?_dropWhile_not (!p ·) cs
  rw [h] at hhead
  simpa using hhead

theorem ne_of_notMem (h : mark ∉ cs) : ∀ c ∈ cs, decide (c ≠ mark) :=
  fun _ hc => decide_eq_true fun he => h (he ▸ hc)

theorem takeWhile_ne_append (h : mark ∉ cs) (rest : List Char) :
    (cs ++ mark :: rest).takeWhile (· ≠ mark) = cs ∧ (cs ++ mark :: rest).dropWhile (· ≠ mark) = mark :: rest :=
  takeWhile_append_cons (ne_of_notMem h) (decide_eq_false (not_not_intro rfl)) rest

/-- A text is what is left without the marks at its end, and then these marks. -/
theorem exists_trimmed {isMark : Char → Bool} (h : ∀ c, isMark c → c = mark) (cs : List Char) :
    ∃ n, cs = (cs.reverse.dropWhile isMark).reverse ++ List.replicate n mark := by
  have hmarks : cs.reverse.takeWhile isMark = List.replicate (cs.reverse.takeWhile isMark).length mark :=
    List.eq_replicate_iff.mpr ⟨rfl, fun c hc => h c (List.mem_takeWhile_imp hc)⟩
  refine ⟨(cs.reverse.takeWhile isMark).length, ?_⟩
  calc cs = (cs.reverse.takeWhile isMark ++ cs.reverse.dropWhile isMark).reverse := by
        rw [List.takeWhile_append_dropWhile, List.reverse_reverse]
    _ = (cs.reverse.dropWhile isMark).reverse ++ (cs.reverse.takeWhile isMark).reverse := List.reverse_append
    _ = _ := by rw [hmarks, List.reverse_replicate, List.length_replicate]

end JobTrail
