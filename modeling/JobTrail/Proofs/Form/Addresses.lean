import JobTrail.Form
import JobTrail.Proofs.Text.Integers
import JobTrail.Proofs.Text.Splitting

/-!
# Email addresses

What an address is can be told of a whole text: how many at-signs it has, that no character is a blank, and
where the dots of its domain stand. The check cuts the text at its first at-sign and what follows at its first
dot, and tests the pieces. It accepts the addresses and nothing else, so a form finds an address in a field
exactly when the field is a text that is this address between blanks.
-/

namespace JobTrail

variable {domain : List Char} {field : Option Value} {s t : String}

/-- A dot inside, and none at either end. -/
structure IsDomainName (domain : List Char) : Prop where
  dot_mem : '.' ∈ domain
  head_ne : domain.head? ≠ some '.'
  last_ne : domain.getLast? ≠ some '.'

/-- One at-sign with something before it and a domain after it, and no blank anywhere. -/
structure IsAddress (s : String) : Prop where
  count_at : s.toList.count '@' = 1
  not_blank : ∀ c ∈ s.toList, isBlank c = false
  parts : ∃ before domain, s.toList = before ++ '@' :: domain ∧ before ≠ [] ∧ IsDomainName domain

/-! ## Cuts at the first separator -/

/-- Behind the first dot of a domain only the last character matters. -/
theorem isDomainName_iff_cut :
    IsDomainName domain ↔ ∃ host top, splitFirst '.' domain = some (host, top)
      ∧ host ≠ [] ∧ top ≠ [] ∧ top.getLast? ≠ some '.' := by
  constructor
  · intro h
    obtain ⟨host, top, rfl, hhost⟩ := List.eq_append_cons_of_mem h.dot_mem
    have hfront := (head?_append_cons_ne_iff hhost).mp h.head_ne
    exact ⟨host, top, splitFirst_append hhost top, hfront, getLast?_append_cons_ne_iff.mp h.last_ne⟩
  · rintro ⟨host, top, hcut, hfront, hback⟩
    obtain ⟨rfl, hhost⟩ := splitFirst_eq_some hcut
    exact ⟨by simp, (head?_append_cons_ne_iff hhost).mpr hfront, getLast?_append_cons_ne_iff.mpr hback⟩

/-- The parts of an address meet at the first at-sign, for there is no other. -/
theorem isAddress_iff_cut :
    IsAddress s ↔ ∃ before domain, splitFirst '@' s.toList = some (before, domain)
      ∧ before ≠ [] ∧ '@' ∉ domain ∧ (∀ c ∈ s.toList, isBlank c = false) ∧ IsDomainName domain := by
  constructor
  · intro h
    obtain ⟨before, domain, hs, hbefore, hdomain⟩ := h.parts
    have hcount := h.count_at
    rw [hs] at hcount
    obtain ⟨hfirst, hlast⟩ := count_append_cons_eq_one_iff.mp hcount
    exact ⟨before, domain, hs ▸ splitFirst_append hfirst domain, hbefore, hlast, h.not_blank, hdomain⟩
  · rintro ⟨before, domain, hcut, hbefore, hlast, hblank, hdomain⟩
    obtain ⟨hs, hfirst⟩ := splitFirst_eq_some hcut
    have hcount : s.toList.count '@' = 1 := hs ▸ count_append_cons_eq_one_iff.mpr ⟨hfirst, hlast⟩
    exact ⟨hcount, hblank, before, domain, hs, hbefore, hdomain⟩

theorem looksLikeEmail_iff (s : String) : looksLikeEmail s ↔ IsAddress s := by
  rw [isAddress_iff_cut, looksLikeEmail]
  cases splitFirst '@' s.toList with
  | none => simp
  | some parts =>
    obtain ⟨before, domain⟩ := parts
    simp only [isDomainName_iff_cut]
    cases hdot : splitFirst '.' domain with
    | none => simp [hdot]
    | some names =>
      obtain ⟨host, top⟩ := names
      simp [hdot, and_assoc]

/-- Dots may stand side by side inside a domain. -/
example : looksLikeEmail "ada@uni..edu" ∧ ¬ looksLikeEmail "ada@uni.edu." := by decide

/-! ## Addresses in fields -/

theorem trimmedText_eq_some_iff :
    trimmedText field = some t ↔ ∃ s, field = some (.text s) ∧ trimBlank s = t := by
  match field with
  | none => simp [trimmedText, present]
  | some v => cases v <;> simp [trimmedText, present, Value.isNull, Value.text?, Option.filter]

theorem Rule.email_eq_some_iff :
    Rule.email field = some (some t) ↔ trimmedText field = some t ∧ IsAddress t := by
  rw [Rule.email, Rule.found, Option.map_eq_some_iff, ← looksLikeEmail_iff]
  simp [Option.filter_eq_some_iff]

theorem Form.check_eq_some_iff {α : Type} {rule : Rule α} {key message : String} {body : Value}
    {errors : FieldErrors} {a : α} :
    (Form.check rule key message body errors).1 = some a ↔ rule (body.get? key) = some (some a) := by
  rw [Form.check]
  cases rule (body.get? key) <;> simp

/--
The check accepts addresses and nothing else. So a form finds an address in a field exactly when the field is a
text and the address is its trimmed form, that is, when the text is the address between blanks.
-/
theorem emails_accepted :
    (∀ s, looksLikeEmail s ↔ IsAddress s)
    ∧ ∀ (body : Value) (key message : String) (errors : FieldErrors) (t : String),
      ((Form.check Rule.email key message body errors).1 = some t
          ↔ ∃ s, body.get? key = some (.text s) ∧ trimBlank s = t ∧ IsAddress t)
      ∧ ((Form.check Rule.email key message body errors).1 = some t
          ↔ ∃ s, body.get? key = some (.text s) ∧ InBlanks t.toList s ∧ IsAddress t) := by
  refine ⟨looksLikeEmail_iff, fun body key message errors t => ?_⟩
  have hfound : (Form.check Rule.email key message body errors).1 = some t
      ↔ ∃ s, body.get? key = some (.text s) ∧ trimBlank s = t ∧ IsAddress t := by
    rw [Form.check_eq_some_iff, Rule.email_eq_some_iff, trimmedText_eq_some_iff]
    simp only [← exists_and_right, and_assoc]
  have htrimmed : ∀ s, InBlanks t.toList s ∧ IsAddress t ↔ trimBlank s = t ∧ IsAddress t := fun s =>
    and_congr_left fun ht => inBlanks_toList_iff ht.not_blank
  simp only [htrimmed]
  exact ⟨hfound, hfound⟩

end JobTrail
