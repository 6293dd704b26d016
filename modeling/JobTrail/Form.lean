import JobTrail.Error
import JobTrail.Text.Blank

/-! # Checking request bodies

A rule reads one field and either accepts it with a value or refuses it. A form runs rules one after
the other; each refusal notes a message under the field's name and the rest goes on, so one answer
lists every problem. No rule sees what was noted before it.
-/

namespace JobTrail

/-- Reads a field as the body has it: `none` refuses, `some none` accepts an absent value. -/
abbrev Rule (α : Type) := Option Value → Option (Option α)

def present (field : Option Value) : Option Value := field.filter (!·.isNull)

def trimmedText (field : Option Value) : Option String :=
  ((present field).bind Value.text?).map trimBlank

/-- Something before the only `@`, and after it a domain with a dot inside; no blanks. -/
def looksLikeEmail (s : String) : Bool :=
  match splitFirst '@' s.toList with
  | none => false
  | some (before, domain) =>
    !before.isEmpty && !domain.contains '@' && !s.toList.any isBlank
      && match splitFirst '.' domain with
        | none => false
        | some (host, top) => !host.isEmpty && !top.isEmpty && top.getLast? != some '.'

def asInt : Value → Option Int
  | .text s => readInt64? (trimChars s.toList)
  | v => v.int?

namespace Rule

def found (v : Option α) : Option (Option α) := v.map some

/-- A field that is absent or null is accepted without a value. -/
def optional (rule : Rule α) : Rule α := fun field =>
  if (present field).isNone then some none else rule field

/-- A text that is not blank, without the blanks at its ends. -/
def requiredText : Rule String := fun field => found ((trimmedText field).filter (· ≠ ""))

def optionalText : Rule String := optional requiredText

/-- A text as it was sent; anything else counts as absent. -/
def anyText : Rule String := fun field => some ((present field).bind Value.text?)

def email : Rule String := fun field => found ((trimmedText field).filter looksLikeEmail)

def minLength (least : Nat) : Rule String := fun field =>
  found (((present field).bind Value.text?).filter fun s => least ≤ s.length)

def intRange (low high : Int) : Rule Int := fun field =>
  found (((present field).bind asInt).filter fun n => low ≤ n ∧ n ≤ high)

def optionalIntRange (low high : Int) : Rule Int := optional (intRange low high)

def oneOf (allowed : List String) : Rule String := fun field =>
  found (((present field).bind Value.text?).filter (allowed.contains ·))

def optionalOneOf (allowed : List String) : Rule String := optional (oneOf allowed)

def optionalFlag : Rule Bool := optional fun field => found ((present field).bind Value.flag?)

/-- A list of texts; null is the empty list, and only an absent field counts as not given. -/
def optionalTexts : Rule (List String) := fun field =>
  match field with
  | none => some none
  | some .null => some (some [])
  | some (.sequence items) => found (items.mapM Value.text?)
  | some _ => none

end Rule

/-- Reads a body and collects the messages of refused fields. -/
abbrev Form (α : Type) := Value → FieldErrors → α × FieldErrors

namespace Form

instance : Monad Form where
  pure a := fun _ errors => (a, errors)
  bind form next := fun body errors =>
    let (a, errors) := form body errors
    next a body errors

def check (rule : Rule α) (key message : String) : Form (Option α) := fun body errors =>
  match rule (body.get? key) with
  | some v => (v, errors)
  | none => (none, errors.note key message)

def body : Form Value := fun body errors => (body, errors)

def text (key : String) : Form (Option String) := check Rule.anyText key ""

def filledText (key : String) : Form (Option String) := do
  return (← text key).filter (· ≠ "")

def run (form : Form α) (body : Value) : Except ApiError α :=
  match form body [] with
  | (a, []) => .ok a
  | (_, errors) => .error (.validation "Validation failed" (some errors))

end Form
end JobTrail
