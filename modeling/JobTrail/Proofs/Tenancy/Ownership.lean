import JobTrail.Proofs.Sql.Laws
import JobTrail.Proofs.Storage

/-!
# Rows and their owners

Whom a row belongs to, what it means that a statement keeps to the rows of one user, and the invariant
that carries this over the statements of one call: every id was given out for one owner, and a row, its
id and the ids that it refers to have the same one. A statement that asks for the owner, or for an id
that was given out for the owner, can then only meet the owner's rows.
-/

namespace JobTrail.Tenancy

open Sql

def tables : List String := ["applications", "checklist_items", "resumes", "tailored_resumes"]

/-- The columns of a table with ids that were given out for the owner of the row. -/
def references (table : String) : List String :=
  if table = "tailored_resumes" then ["id", "original_resume_id"]
  else if table ∈ tables then ["id"]
  else []

/-- A row belongs to a user: its owner is the same UUID. -/
def Belongs (user : String) (r : Record) : Prop := castUuid (.text user) = .ok (r.column "user_id")

instance (user : String) (r : Record) : Decidable (Belongs user r) :=
  inferInstanceAs (Decidable (_ = _))

def IsAccount (user : String) (r : Record) : Prop := castUuid (.text user) = .ok (r.column "id")

instance (user : String) (r : Record) : Decidable (IsAccount user r) :=
  inferInstanceAs (Decidable (_ = _))

/-- The rows of other users are left as they are, and so are their accounts. -/
structure Isolated (user : String) (db db' : Database) : Prop where
  rows : ∀ table ∈ tables,
    (db'.rows table).filter (¬ Belongs user ·) = (db.rows table).filter (¬ Belongs user ·)
  accounts : (db'.rows "users").filter (¬ IsAccount user ·) = (db.rows "users").filter (¬ IsAccount user ·)

/-- Each value of an answered row stands in a row of the user's, before or after the statement. -/
def Drawn (user : String) (db db' : Database) (row : Record) : Prop :=
  ∀ entry ∈ row, entry.2 = .null ∨ ∃ table ∈ tables, ∃ r ∈ db.rows table ++ db'.rows table,
    Belongs user r ∧ ∃ c, (c, entry.2) ∈ r

/-! ## Ids and owners -/

def Registry := Value → Option Value

namespace Registry

def none : Registry := fun _ => Option.none

def Grows (ρ ρ' : Registry) : Prop := ∀ id owner, ρ id = some owner → ρ' id = some owner

variable {ρ ρ' ρ'' : Registry}

theorem Grows.refl (ρ : Registry) : ρ.Grows ρ := fun _ _ h => h

theorem Grows.trans (h : ρ.Grows ρ') (h' : ρ'.Grows ρ'') : ρ.Grows ρ'' := fun id owner ho =>
  h' id owner (h id owner ho)

/-- The registry after an id was given out for an owner. -/
def give (ρ : Registry) (id owner : Value) : Registry := fun x => if x = id then some owner else ρ x

theorem give_eq_some {id owner x o : Value} (h : ρ.give id owner x = some o) :
    x = id ∧ o = owner ∨ ρ x = some o := by
  unfold give at h
  split at h
  · rename_i hx
    exact .inl ⟨hx, (Option.some.inj h).symm⟩
  · exact .inr h

theorem grows_give {id : Value} (hfree : ∀ owner, ρ id ≠ some owner) (owner : Value) :
    ρ.Grows (ρ.give id owner) := by
  intro x o hx
  have hne : x ≠ id := fun he => hfree o (he ▸ hx)
  rw [give, if_neg hne, hx]

/-- The id that a value is cast to was given out for an owner. -/
def Has (ρ : Registry) (owner v : Value) : Prop := ∀ id, castUuid v = .ok id → ρ id = some owner

theorem Has.mono {owner v : Value} (h : ρ.Has owner v) (hgrows : ρ.Grows ρ') : ρ'.Has owner v :=
  fun id hid => hgrows id owner (h id hid)

end Registry

def Registered (ρ : Registry) (table : String) (r : Record) : Prop :=
  ∀ c ∈ references table, ρ (r.column c) = some (r.column "user_id")

/-- What holds of storage between any two statements. -/
structure Consistent (ρ : Registry) (s : Storage) : Prop where
  issued : ∀ id owner, ρ id = some owner → id ∈ s.issued ∧ castUuid id = .ok id
  registered : ∀ table, ∀ r ∈ s.db.rows table, Registered ρ table r

theorem references_eq_nil {table : String} (h : table ∉ tables) : references table = [] := by
  have hne : table ≠ "tailored_resumes" := fun he => h (he ▸ by decide)
  rw [references, if_neg hne, if_neg h]

theorem id_mem_references {table : String} (h : table ∈ tables) : "id" ∈ references table := by
  rw [references, if_pos h]
  split <;> simp

theorem Registered.mono {ρ ρ' : Registry} {table : String} {r : Record} (h : Registered ρ table r)
    (hgrows : ρ.Grows ρ') : Registered ρ' table r := fun c hc => hgrows _ _ (h c hc)

/-- Giving out a new id leaves everything consistent under the registry that has it. -/
theorem Consistent.give {ρ : Registry} {s : Storage} (h : Consistent ρ s) {id : Value}
    (hid : castUuid id = .ok id) (hnew : id ∉ s.issued) (owner : Value) :
    ∃ ρ' : Registry, ρ.Grows ρ' ∧ ρ' id = some owner ∧
      Consistent ρ' { s with issued := id :: s.issued } := by
  have hfree : ∀ o, ρ id ≠ some o := fun o ho => hnew (h.issued id o ho).1
  have hgrows := Registry.grows_give hfree owner
  refine ⟨ρ.give id owner, hgrows, if_pos rfl, ?_, fun table r hr => (h.registered table r hr).mono hgrows⟩
  intro x o hx
  rcases Registry.give_eq_some hx with ⟨rfl, -⟩ | hx
  · exact ⟨List.mem_cons_self, hid⟩
  · obtain ⟨hmem, hcast⟩ := h.issued x o hx
    exact ⟨List.mem_cons_of_mem _ hmem, hcast⟩

/-! ## Statements that leave the owners' tables alone -/

theorem Isolated.refl (user : String) (db : Database) : Isolated user db db :=
  ⟨fun _ _ => rfl, rfl⟩

end JobTrail.Tenancy
