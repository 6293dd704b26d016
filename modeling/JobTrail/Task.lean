import JobTrail.Blob.Store
import JobTrail.Database.Update

/-! # Tasks

A task is a program that asks the world around it for things and goes on with the answers: fresh
ids and salts, statements for the database, blobs, and files of the public tree. It has no other
effect, so what it asks, in which order, and what it makes of each answer is all there is to it. A
world is any way to answer; several tasks can share one, statement by statement.
-/

namespace JobTrail

inductive Effect where
  | freshId
  | freshSalt
  | execute (statement : Statement)
  | putBlob (path : String) (bytes : ByteArray)
  | getBlob (path : String)
  | locateBlob (uri : String)
  /-- What lies at a path of the public tree. -/
  | lookUp (path : List String)

abbrev Effect.Answer : Effect → Type
  | freshId => String
  | freshSalt => List UInt8
  | execute _ => Except DatabaseError (List Record)
  | putBlob .. => Except BlobError String
  | getBlob _ => Except BlobError (Option ByteArray)
  | locateBlob _ => Option String
  | lookUp _ => Look

inductive Task (α : Type) where
  | done (a : α)
  | ask (r : Effect) (next : r.Answer → Task α)

namespace Task

variable {α β γ σ : Type}

def bind : Task α → (α → Task β) → Task β
  | done a, f => f a
  | ask r next, f => ask r fun x => (next x).bind f

instance : Monad Task where
  pure := done
  bind := bind

theorem bind_done (t : Task α) : t.bind done = t := by
  induction t with
  | done a => rfl
  | ask r next ih => simp only [bind, ih]

theorem bind_assoc (t : Task α) (f : α → Task β) (g : β → Task γ) :
    (t.bind f).bind g = t.bind fun a => (f a).bind g := by
  induction t with
  | done a => rfl
  | ask r next ih => simp only [bind, ih]

instance : LawfulMonad Task := LawfulMonad.mk' Task bind_done (fun _ _ => rfl) bind_assoc

def perform (r : Effect) : Task r.Answer := ask r done

/-- A way to answer effects that keeps a state. -/
abbrev World (σ : Type) := (r : Effect) → σ → r.Answer × σ

def run (world : World σ) : Task α → σ → α × σ
  | done a, s => (a, s)
  | ask r next, s => (next (world r s).1).run world (world r s).2

end Task
end JobTrail
