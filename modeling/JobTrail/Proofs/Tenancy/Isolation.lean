import JobTrail.Proofs.Tenancy.Calls
import Mathlib.Logic.Relation

/-!
# Isolation of users

Any calls of any users run at the same time on one storage: a step starts a call, or it lets one of the
calls go on by one effect, which storage may also let fail. In every state that is reached from an empty
storage, a step of a call that is made for a user leaves the rows and accounts of all other users as
they are; no row ever changes its owner; and what a call returns belongs to its caller.
-/

set_option maxRecDepth 8192

namespace JobTrail.Tenancy

open Sql Storage Relation

structure Thread where
  call : Call
  rest : Task (Except ServiceError (List Record))

structure Configuration where
  storage : Storage
  threads : List Thread

namespace Configuration

def initial (publicPath : String) : Configuration := ⟨.empty publicPath, []⟩

inductive Moves (e : Engine) (call : Call) (r : Effect) (x : r.Answer) : Configuration → Configuration → Prop where
  | move {s s' : Storage} (before after : List Thread)
      (next : r.Answer → Task (Except ServiceError (List Record))) : Answers e s r x s' →
      Moves e call r x ⟨s, before ++ ⟨call, .ask r next⟩ :: after⟩ ⟨s', before ++ ⟨call, next x⟩ :: after⟩

inductive Step (e : Engine) : Configuration → Configuration → Prop where
  | start (conf : Configuration) (call : Call) :
      Step e conf ⟨conf.storage, ⟨call, call.rows.run⟩ :: conf.threads⟩
  | move {conf conf' : Configuration} {call : Call} {r : Effect} {x : r.Answer} :
      Moves e call r x conf conf' → Step e conf conf'

def Reach (e : Engine) : Configuration → Configuration → Prop := ReflTransGen (Step e)

end Configuration

open Tenancy.Configuration

variable {e : Engine} {ρ : Registry} {conf conf' : Configuration}

def Thread.IsGuarded (e : Engine) (ρ : Registry) (t : Thread) : Prop :=
  Guarded e t.call.caller
    (fun x _ => ∀ rows, x = .ok rows → ∀ user ∈ t.call.caller, ∀ row ∈ rows, Belongs user row) t.rest ρ

/-- The invariant: consistent storage and guarded calls. -/
structure Safe (e : Engine) (ρ : Registry) (conf : Configuration) : Prop where
  consistent : Consistent ρ conf.storage
  threads : ∀ t ∈ conf.threads, t.IsGuarded e ρ

theorem Thread.IsGuarded.mono {ρ' : Registry} {t : Thread} (h : t.IsGuarded e ρ) (hgrows : ρ.Grows ρ') :
    t.IsGuarded e ρ' := Guarded.later (fun _ hx => hx) h hgrows

theorem safe_initial (publicPath : String) : Safe e .none (initial publicPath) := by
  refine ⟨⟨?_, ?_⟩, ?_⟩
  · intro id owner h
    cases h
  · intro table r hr
    cases hr
  · intro t ht
    cases ht

/-- An effect of one call is confined to its caller, and all the other calls are as safe as before. -/
theorem Safe.moves (h : Safe e ρ conf) {call : Call} {r : Effect} {x : r.Answer}
    (hmoves : Moves e call r x conf conf') :
    Confined call.caller conf.storage r x conf'.storage ∧ ∃ ρ', ρ.Grows ρ' ∧ Safe e ρ' conf' := by
  obtain ⟨before, after, next, hanswers⟩ := hmoves
  have hthread := h.threads ⟨call, .ask r next⟩ (by simp)
  obtain ⟨hconfined, ρ', hgrows, hconsistent, hnext⟩ := hthread ρ _ x _ (.refl ρ) h.consistent hanswers
  refine ⟨hconfined, ρ', hgrows, hconsistent, ?_⟩
  intro t ht
  rcases List.mem_append.mp ht with ht | ht
  · exact (h.threads t (by simp [ht])).mono hgrows
  · rcases List.mem_cons.mp ht with rfl | ht
    · exact hnext
    · exact (h.threads t (by simp [ht])).mono hgrows

theorem Safe.step (h : Safe e ρ conf) (hstep : Step e conf conf') : ∃ ρ', ρ.Grows ρ' ∧ Safe e ρ' conf' := by
  cases hstep with
  | start call =>
    refine ⟨ρ, .refl ρ, h.consistent, fun t ht => ?_⟩
    rcases List.mem_cons.mp ht with rfl | ht
    · exact sound_call call ρ
    · exact h.threads t ht
  | move hmoves => exact (h.moves hmoves).2

theorem Safe.reach (h : Safe e ρ conf) (hreach : Reach e conf conf') :
    ∃ ρ', ρ.Grows ρ' ∧ Safe e ρ' conf' := by
  induction hreach with
  | refl => exact ⟨ρ, .refl ρ, h⟩
  | tail _ hstep ih =>
    obtain ⟨ρ₁, hgrows₁, hsafe⟩ := ih
    obtain ⟨ρ₂, hgrows₂, hsafe'⟩ := hsafe.step hstep
    exact ⟨ρ₂, hgrows₁.trans hgrows₂, hsafe'⟩

theorem Safe.owner_eq {ρ' : Registry} (h : Safe e ρ conf) (h' : Safe e ρ' conf') (hgrows : ρ.Grows ρ')
    {table : String} (ht : table ∈ tables) {r r' : Record} (hr : r ∈ conf.storage.db.rows table)
    (hr' : r' ∈ conf'.storage.db.rows table) (hid : r'.column "id" = r.column "id") :
    r'.column "user_id" = r.column "user_id" := by
  have hreference := id_mem_references ht
  have howner := hgrows _ _ (h.consistent.registered table r hr "id" hreference)
  have howner' := h'.consistent.registered table r' hr' "id" hreference
  rw [hid, howner] at howner'
  exact (Option.some.inj howner').symm

/-- Users are isolated from each other in every state that any calls of any users lead to. -/
theorem users_isolated (e : Engine) (publicPath : String) {conf : Configuration}
    (hreach : Reach e (initial publicPath) conf) :
    (∀ call r x conf', Moves e call r x conf conf' → ∀ user ∈ call.caller,
      Isolated user conf.storage.db conf'.storage.db ∧
        AnswerDrawn user conf.storage.db conf'.storage.db r x) ∧
    (∀ conf', Reach e conf conf' → ∀ table ∈ tables, ∀ r ∈ conf.storage.db.rows table,
      ∀ r' ∈ conf'.storage.db.rows table, r'.column "id" = r.column "id" →
        r'.column "user_id" = r.column "user_id") ∧
    (∀ t ∈ conf.threads, ∀ user ∈ t.call.caller, ∀ rows, t.rest = .done (.ok rows) →
      ∀ row ∈ rows, Belongs user row) := by
  obtain ⟨ρ, -, hsafe⟩ := (safe_initial publicPath).reach hreach
  refine ⟨?_, ?_, ?_⟩
  · intro call r x conf' hmoves
    exact (hsafe.moves hmoves).1
  · intro conf' hreach' table ht r hr r' hr' hid
    obtain ⟨ρ', hgrows, hsafe'⟩ := hsafe.reach hreach'
    exact hsafe.owner_eq hsafe' hgrows ht hr hr' hid
  · rintro ⟨call, rest⟩ ht user huser rows rfl
    exact hsafe.threads _ ht rows rfl user huser

/-! ## An application that is created -/

def acmeUser : String := Uuid.print (List.replicate 32 1)

def acmeId : String := Uuid.print (List.replicate 32 2)

def acmeDraft : Application.Draft := ⟨"Acme", "Engineer", "Remote", "Applied", "2024-05-01", none, none⟩

def acmeColumns : List String :=
  ["id", "user_id", "company", "role", "location", "status", "applied_date", "notes", "company_logo"]

def acmeValues : List Value :=
  [.text acmeId, .text acmeUser, .text "Acme", .text "Engineer", .text "Remote", .text "Applied",
    .text "2024-05-01", .null, .null]

def acmeInsertion : Query :=
  .insert "applications" acmeColumns
    [.parameter 0 (some "uuid"), .parameter 1 (some "uuid"), .parameter 2 none, .parameter 3 none,
      .parameter 4 none, .parameter 5 none, .parameter 6 (some "date"), .parameter 7 none, .parameter 8 none]
    false (some .all)

theorem read?_acmeInsertion :
    read? ("INSERT INTO applications "
      ++ "(id, user_id, company, role, location, status, applied_date, notes, company_logo) "
      ++ "VALUES ($1::uuid, $2::uuid, $3, $4, $5, $6, $7::date, $8, $9) " ++ "RETURNING *") = some acmeInsertion :=
  ((((spells_ofList _).append (spells_ofList _)).append (spells_ofList _)).append (spells_ofList _)).read?
    (by decide)

theorem castUuid_acmeUser : castUuid (.text acmeUser) = .ok (.text acmeUser) := castUuid_print ⟨rfl, by decide⟩

theorem castUuid_acmeId : castUuid (.text acmeId) = .ok (.text acmeId) := castUuid_print ⟨rfl, by decide⟩

theorem run_acmeInsertion :
    acmeInsertion.run .plain acmeValues .empty = .ok ([acmeColumns.zip acmeValues],
      Database.empty.set "applications" [acmeColumns.zip acmeValues]) := by
  simp [acmeInsertion, acmeValues, acmeColumns, Query.run, Operand.bind, argument, castTo, castUuid_acmeId,
    castUuid_acmeUser, Except.map]
  rfl

/-- A user whose call has returned the application that it created. -/
theorem users_isolated_created :
    ∃ conf, Reach .plain (initial "/files") conf ∧
      ∃ user draft row, ⟨.applications user (.create draft), .done (.ok [row])⟩ ∈ conf.threads ∧
        Belongs user row := by
  have hstarted := ReflTransGen.refl.tail
    (Step.start (e := .plain) (initial "/files") (.applications acmeUser (.create acmeDraft)))
  have hgiven := hstarted.tail
    (.move (.move [] [] _ (.inl (.freshId (.empty "/files") castUuid_acmeId (by simp [Storage.empty])))))
  have hadded := hgiven.tail (.move (.move [] [] _ (.inl (.of_run read?_acmeInsertion run_acmeInsertion))))
  refine ⟨_, hadded, acmeUser, acmeDraft, acmeColumns.zip acmeValues, List.mem_cons_self, ?_⟩
  exact (users_isolated .plain "/files" hadded).2.2 _ List.mem_cons_self acmeUser rfl _ rfl _ (by simp)

end JobTrail.Tenancy
