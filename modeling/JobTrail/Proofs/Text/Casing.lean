import JobTrail.Text.Casing
import Mathlib

/-!
# Keys that keep their spelling

Which keys come back from a change of spelling and back again. A mark is an underscore in front of a
lowercase letter: the camel scan removes every mark and makes none, and the snake scan removes every
capital. Hence what a double change answers is stable itself, at once or after one more round; this
rules out that renaming only moves the keys of a record around.
-/

namespace JobTrail.Casing

def Unmarked (cs : List Char) : Prop := cs.IsChain fun a b => ¬ (a = '_' ∧ b.isLower)

/-- A key that the snake spelling and then the camel spelling give back. -/
def CamelStable (key : String) : Prop :=
  (∀ c ∈ key.toList.head?, ¬ c.isUpper) ∧ Unmarked key.toList

/-- A key that the camel spelling and then the snake spelling give back. -/
def SnakeStable (key : String) : Prop :=
  (∀ c ∈ key.toList, ¬ c.isUpper) ∧ ∀ c rest, key.toList = '_' :: c :: rest → ¬ c.isLower

variable {c d : Char} {cs rest : List Char}

theorem isUpper_toUpper (h : c.isLower) : c.toUpper.isUpper := by
  rw [Char.isUpper_toUpper_eq_isAlpha, Char.isAlpha, h, Bool.or_true]

theorem isLower_toLower (h : c.isUpper) : c.toLower.isLower := by
  rw [Char.isLower_toLower_eq_isAlpha, Char.isAlpha, h, Bool.true_or]

theorem toLower_ne_underscore (h : c.isUpper) : c.toLower ≠ '_' := by
  intro he
  have hlower := isLower_toLower h
  rw [he] at hlower
  cases hlower

/-! ## The camel scan -/

theorem camelChars_mark (h : d.isLower) : camelChars ('_' :: d :: rest) = d.toUpper :: camelChars rest := by
  simp [camelChars, h]

theorem camelChars_cons (h : ∀ d ∈ rest.head?, ¬ (c = '_' ∧ d.isLower)) :
    camelChars (c :: rest) = c :: camelChars rest := by
  cases rest with
  | nil => rfl
  | cons d tail => rw [camelChars, if_neg (h d rfl)]

theorem head?_camelChars_lower (h : c ∈ (camelChars cs).head?) (hlower : c.isLower) :
    cs.head? = some c := by
  fun_cases camelChars cs with
  | case1 => cases h
  | case2 a => exact h
  | case3 a b rest hmark =>
    rw [camelChars, if_pos hmark] at h
    have hc : b.toUpper = c := by simpa using h
    rw [← hc, Char.isLower_toUpper_eq_false] at hlower
    cases hlower
  | case4 a b rest hmark =>
    rw [camelChars, if_neg hmark] at h
    simpa using h

theorem unmarked_camelChars (cs : List Char) : Unmarked (camelChars cs) := by
  fun_induction camelChars cs with
  | case1 => exact .nil
  | case2 a => exact .singleton a
  | case3 a b rest hmark ih =>
    refine List.isChain_cons.mpr ⟨?_, ih⟩
    rintro d - ⟨hunderscore, -⟩
    have hupper := isUpper_toUpper hmark.2
    rw [hunderscore] at hupper
    cases hupper
  | case4 a b rest hmark ih =>
    refine List.isChain_cons.mpr ⟨?_, ih⟩
    rintro d hd ⟨hunderscore, hlower⟩
    have hb := head?_camelChars_lower hd hlower
    cases hb
    exact hmark ⟨hunderscore, hlower⟩

theorem camelChars_of_unmarked (h : Unmarked cs) : camelChars cs = cs := by
  induction cs with
  | nil => rfl
  | cons c rest ih =>
    obtain ⟨hhead, hrest⟩ := List.isChain_cons.mp h
    rw [camelChars_cons hhead, ih hrest]

/-- What the scan begins with in small letters stood there already: a mark leaves a capital. -/
theorem eq_append_of_camelChars {small : List Char} (hsmall : ∀ c ∈ small, c.isLower)
    (h : camelChars cs = small ++ rest) : ∃ tail, cs = small ++ tail ∧ camelChars tail = rest := by
  induction small generalizing cs with
  | nil => exact ⟨cs, rfl, h⟩
  | cons c small ih =>
    obtain ⟨hc, hrest⟩ := List.forall_mem_cons.mp hsmall
    have hhead := head?_camelChars_lower (by rw [h]; rfl) hc
    obtain ⟨tail, rfl⟩ := List.head?_eq_some_iff.mp hhead
    rw [camelChars_cons (fun d _ hmark => by rw [hmark.1] at hc; cases hc), List.cons_append,
      List.cons.injEq] at h
    obtain ⟨tail', rfl, htail⟩ := ih hrest h.2
    exact ⟨tail', rfl, htail⟩

theorem eq_nil_of_camelChars (h : camelChars cs = []) : cs = [] := by
  cases cs with
  | nil => rfl
  | cons a rest =>
    cases rest with
    | nil => cases h
    | cons b rest =>
      rw [camelChars] at h
      split at h <;> cases h

/-- The camel spelling of two words in small letters is that of no key but the two words with a mark between
them and the spelling itself. -/
theorem eq_of_camelChars_words {front back : List Char} (hfront : ∀ c ∈ front, c.isLower) (hd : d.isLower)
    (hback : ∀ c ∈ back, c.isLower) (h : camelChars cs = front ++ d.toUpper :: back) :
    cs = front ++ '_' :: d :: back ∨ cs = front ++ d.toUpper :: back := by
  obtain ⟨tail, rfl, htail⟩ := eq_append_of_camelChars hfront h
  have hrest : ∀ {rest}, camelChars rest = back → rest = back := by
    intro rest hrest
    obtain ⟨more, rfl, hmore⟩ := eq_append_of_camelChars hback (hrest.trans (List.append_nil back).symm)
    rw [eq_nil_of_camelChars hmore, List.append_nil]
  fun_cases camelChars tail with
  | case1 => cases htail
  | case2 a =>
    cases htail
    exact .inr rfl
  | case3 a b rest hmark =>
    rw [hmark.1, camelChars_mark hmark.2, List.cons.injEq] at htail
    obtain ⟨hb, hback'⟩ := htail
    refine .inl ?_
    rw [hmark.1, hrest hback', ← Char.toLower_eq_of_not_isUpper (Char.not_isUpper_of_isLower hmark.2),
      ← Char.toLower_toUpper_eq_toLower, hb, Char.toLower_toUpper_eq_toLower,
      Char.toLower_eq_of_not_isUpper (Char.not_isUpper_of_isLower hd)]
  | case4 a b rest hmark =>
    rw [camelChars, if_neg hmark, List.cons.injEq] at htail
    rw [htail.1, hrest htail.2]
    exact .inr rfl

/-! ## The snake scan -/

theorem not_isUpper_snakeTail (cs : List Char) : ∀ c ∈ snakeTail cs, ¬ c.isUpper := by
  induction cs with
  | nil => simp [snakeTail]
  | cons a rest ih =>
    intro c hc
    by_cases ha : a.isUpper
    · simp only [snakeTail, ha, if_true, List.mem_cons] at hc
      rcases hc with rfl | rfl | hc
      · decide
      · simp
      · exact ih c hc
    · simp only [snakeTail, ha, if_false, List.mem_cons, Bool.false_eq_true] at hc
      rcases hc with rfl | hc
      · exact ha
      · exact ih c hc

theorem not_isUpper_snakeChars (cs : List Char) : ∀ c ∈ snakeChars cs, ¬ c.isUpper := by
  cases cs with
  | nil => simp [snakeChars]
  | cons a rest =>
    intro c hc
    rcases List.mem_cons.mp hc with rfl | hc
    · simp
    · exact not_isUpper_snakeTail rest c hc

theorem head?_snakeTail_lower (h : c ∈ (snakeTail cs).head?) (hlower : c.isLower) :
    cs.head? = some c := by
  cases cs with
  | nil => cases h
  | cons a rest =>
    by_cases ha : a.isUpper
    · simp only [snakeTail, ha, if_true, List.head?_cons, Option.mem_def, Option.some.injEq] at h
      subst h
      cases hlower
    · simpa [snakeTail, ha] using h

theorem snakeChars_eq_snakeTail (h : ∀ c ∈ cs.head?, ¬ c.isUpper) : snakeChars cs = snakeTail cs := by
  cases cs with
  | nil => rfl
  | cons c rest =>
    have hc : ¬ c.isUpper := h c rfl
    rw [snakeChars, snakeTail, if_neg hc, Char.toLower_eq_of_not_isUpper hc]

theorem snakeTail_of_not_isUpper (h : ∀ c ∈ cs, ¬ c.isUpper) : snakeTail cs = cs := by
  induction cs with
  | nil => rfl
  | cons c rest ih =>
    obtain ⟨hc, hrest⟩ := List.forall_mem_cons.mp h
    rw [snakeTail, if_neg hc, ih hrest]

theorem snakeChars_of_not_isUpper (h : ∀ c ∈ cs, ¬ c.isUpper) : snakeChars cs = cs := by
  have hhead : ∀ c ∈ cs.head?, ¬ c.isUpper := fun c hc => h c (List.mem_of_mem_head? hc)
  rw [snakeChars_eq_snakeTail hhead, snakeTail_of_not_isUpper h]

/-! ## Keys at rest -/

/-- The camel spelling leaves a key alone exactly when the key has no mark. -/
theorem camel_eq_self_iff (key : String) : camel key = key ↔ Unmarked key.toList := by
  constructor
  · intro h
    rw [← h, camel, String.toList_ofList]
    exact unmarked_camelChars key.toList
  · intro h
    rw [camel, camelChars_of_unmarked h, String.ofList_toList]

/-- The snake spelling leaves a key alone exactly when the key has no capital. -/
theorem snake_eq_self_iff (key : String) : snake key = key ↔ ∀ c ∈ key.toList, ¬ c.isUpper := by
  constructor
  · intro h
    rw [← h, snake, String.toList_ofList]
    exact not_isUpper_snakeChars key.toList
  · intro h
    rw [snake, snakeChars_of_not_isUpper h, String.ofList_toList]

/-! ## Both scans -/

theorem camelChars_snakeTail (h : Unmarked cs) : camelChars (snakeTail cs) = cs := by
  induction cs with
  | nil => rfl
  | cons c rest ih =>
    obtain ⟨hhead, hrest⟩ := List.isChain_cons.mp h
    by_cases hc : c.isUpper
    · rw [snakeTail, if_pos hc, camelChars_mark (isLower_toLower hc), ih hrest, Char.toUpper_toLower_eq_toUpper,
        Char.toUpper_eq_of_not_isLower (Char.not_isLower_of_isUpper hc)]
    · rw [snakeTail, if_neg hc, camelChars_cons, ih hrest]
      rintro d hd ⟨hunderscore, hlower⟩
      exact hhead d (head?_snakeTail_lower hd hlower) ⟨hunderscore, hlower⟩

theorem snakeTail_camelChars (h : ∀ c ∈ cs, ¬ c.isUpper) : snakeTail (camelChars cs) = cs := by
  fun_induction camelChars cs with
  | case1 => rfl
  | case2 a => simp [snakeTail, h a]
  | case3 a b rest hmark ih =>
    have hrest := ih fun c hc => h c (List.mem_cons_of_mem _ (List.mem_cons_of_mem _ hc))
    have hupper := isUpper_toUpper hmark.2
    have hb : ¬ b.isUpper := h b (by simp)
    rw [snakeTail, if_pos hupper, hrest, Char.toLower_toUpper_eq_toLower,
      Char.toLower_eq_of_not_isUpper hb, hmark.1]
  | case4 a b rest hmark ih =>
    have hrest := ih fun c hc => h c (List.mem_cons_of_mem _ hc)
    rw [snakeTail, if_neg (h a List.mem_cons_self), hrest]

/-! ## Stable keys -/

theorem camel_snake (key : String) (h : CamelStable key) : camel (snake key) = key := by
  rw [camel, snake, String.toList_ofList, snakeChars_eq_snakeTail h.1, camelChars_snakeTail h.2,
    String.ofList_toList]

theorem snake_camel (key : String) (h : SnakeStable key) : snake (camel key) = key := by
  have hhead : ∀ c ∈ (camelChars key.toList).head?, ¬ c.isUpper := by
    cases hkey : key.toList with
    | nil => simp [camelChars]
    | cons c rest =>
      rw [camelChars_cons]
      · intro d hd
        cases hd
        exact h.1 c (by simp [hkey])
      · rintro d hd ⟨rfl, hlower⟩
        obtain ⟨tail, rfl⟩ := List.head?_eq_some_iff.mp hd
        exact h.2 d tail hkey hlower
  rw [snake, camel, String.toList_ofList, snakeChars_eq_snakeTail hhead, snakeTail_camelChars h.1,
    String.ofList_toList]

/-- The camel spelling of a snake spelling has no mark, but it may start with a capital; that is gone
after a second round. -/
theorem camelStable_twice (key : String) : CamelStable (camel (snake (camel (snake key)))) := by
  have hunmarked := unmarked_camelChars (snakeChars key.toList)
  simp only [CamelStable, camel, snake, String.toList_ofList]
  generalize camelChars (snakeChars key.toList) = cs at hunmarked
  refine ⟨?_, unmarked_camelChars _⟩
  cases cs with
  | nil => simp [snakeChars, camelChars]
  | cons a rest =>
    by_cases ha : a.isUpper
    · rw [snakeChars, camelChars_cons (fun d _ hmark => toLower_ne_underscore ha hmark.1)]
      rintro c hc
      cases hc
      simp
    · have hnot : ∀ c ∈ (a :: rest).head?, ¬ c.isUpper := by
        rintro c hc
        cases hc
        exact ha
      rw [snakeChars_eq_snakeTail hnot, camelChars_snakeTail hunmarked]
      exact hnot

theorem snakeStable_snake_camel (key : String) : SnakeStable (snake (camel key)) := by
  have hunmarked := unmarked_camelChars key.toList
  simp only [SnakeStable, camel, snake, String.toList_ofList]
  generalize camelChars key.toList = cs at hunmarked
  refine ⟨not_isUpper_snakeChars cs, fun c rest hcs hlower => ?_⟩
  cases cs with
  | nil => cases hcs
  | cons a tail =>
    simp only [snakeChars, List.cons.injEq] at hcs
    obtain ⟨ha, htail⟩ := hcs
    have hnext : c ∈ tail.head? := head?_snakeTail_lower (by rw [htail]; rfl) hlower
    have hunderscore : a = '_' := by
      by_cases hupper : a.isUpper
      · exact absurd ha (toLower_ne_underscore hupper)
      · rw [← ha, Char.toLower_eq_of_not_isUpper hupper]
    exact (List.isChain_cons.mp hunmarked).1 c hnext ⟨hunderscore, hlower⟩

end JobTrail.Casing
