import JobTrail.Http.Message
import JobTrail.Proofs.Service.Calls

/-!
# Faults of storage

The first fault ends a call. Up to it the call has asked for what every run asks for that was answered the
same so far, nothing is asked after it, and the caller gets that fault. A client learns of a database error
only what kind it is.
-/

namespace JobTrail

/-! ## Kinds of database errors -/

inductive DatabaseError.Kind where
  | unavailable
  | duplicate
  | other
deriving DecidableEq, Repr

def DatabaseError.kind : DatabaseError → Kind
  | unavailable => .unavailable
  | duplicate _ => .duplicate
  | invalidUrl | failed => .other

def DatabaseError.Kind.status : Kind → Nat
  | unavailable => 503
  | duplicate => 409
  | other => 500

namespace Tenancy

open Service Script

theorem failure_cases (call : Call) :
    call.failure = .database ∨ call.failure = User.creationFailure := by
  cases call with
  | users c =>
    cases c with
    | create draft => exact .inr rfl
    | _ => exact .inl rfl
  | _ => exact .inl rfl

theorem status_failure (call : Call) (err : DatabaseError) :
    (HttpResponse.ofError (call.failure err).toApi).status = err.kind.status := by
  rcases failure_cases call with hfailure | hfailure
  all_goals
    rw [hfailure]
    cases err <;> rfl

theorem toApi_failure_of_kind (call : Call) {err err' : DatabaseError} (h : err'.kind = err.kind) :
    (call.failure err').toApi = (call.failure err).toApi := by
  rcases failure_cases call with hfailure | hfailure
  all_goals
    rw [hfailure]
    cases err <;> cases err' <;> first | rfl | cases h

/-! ## Calls that stop -/

/-- What a run of a call keeps to when storage fails. -/
structure Call.FailsStop (call : Call) (script : List Exchange) (x : Except ServiceError (List Record)) :
    Prop where
  /-- A database error is the last answer, and the call's result. -/
  database : ∀ before after failed err, script = before ++ ⟨.execute failed, .error err⟩ :: after →
    after = [] ∧ statements script = statements before ++ [failed] ∧ x = .error (call.failure err)
  /-- Until then a run asks for what all runs ask for that were answered the same until then. -/
  agrees : ∀ before after failed err, script = before ++ ⟨.execute failed, .error err⟩ :: after →
    ∀ script' x', call.rows.run.Plays script' x' → replies before <+: replies script' →
      List.Forall₂ (Statement.SameUpTo (drawn script script')) (statements script)
        ((statements script').take ((statements before).length + 1))
  /-- The response is made from the kind of the error. -/
  response : ∀ err, (HttpResponse.ofError (call.failure err).toApi).status = err.kind.status ∧
    ∀ err', err'.kind = err.kind →
      HttpResponse.ofError (call.failure err').toApi = HttpResponse.ofError (call.failure err).toApi
  /-- A file that cannot be written is the last request as well. -/
  writing : ∀ before after path bytes err, script = before ++ ⟨.putBlob path bytes, .error err⟩ :: after →
    after = [] ∧ x = .error (.blob err)
  reading : ∀ before after path err, script = before ++ ⟨.getBlob path, .error err⟩ :: after →
    after = [] ∧ x = .error (.blob err)

theorem statements_of_failure {script before after : List Exchange} {failed : Statement} {err : DatabaseError}
    (hscript : script = before ++ ⟨.execute failed, .error err⟩ :: after) (hafter : after = []) :
    statements script = statements before ++ [failed] := by
  rw [hscript, hafter, statements_append]
  rfl

/-- The first fault of storage ends a call, at whichever of its requests it comes. -/
theorem Call.fail_stop (call : Call) {script : List Exchange} {x : Except ServiceError (List Record)}
    (hplays : call.rows.run.Plays script x) : call.FailsStop script x where
  database before after failed err hscript := by
    obtain ⟨hafter, hx⟩ := (call_numbers call).stops hplays hscript rfl
    exact ⟨hafter, statements_of_failure hscript hafter, hx⟩
  agrees before after failed err hscript script' x' hplays' hbegins := by
    obtain ⟨hafter, -⟩ := (call_numbers call).stops hplays hscript rfl
    have hstatements := statements_of_failure hscript hafter
    rw [hafter] at hscript
    obtain ⟨a', b', rfl, halike⟩ := (call_numbers call).alike_of_begins hplays hplays' hscript rfl hbegins
    have hlength : (statements before).length + 1 = (statements a').length := by
      rw [← halike.statements.length_eq, hstatements, List.length_append, List.length_singleton]
    rw [statements_append, hlength, List.take_left]
    have hdrawn : drawn script a' ⊆ drawn script (a' ++ b') := by
      have hwhole : drawn (script ++ []) (a' ++ b') = drawn script a' ++ drawn [] b' := halike.drawn_append
      rw [List.append_nil] at hwhole
      rw [hwhole]
      exact List.subset_append_left ..
    exact halike.statements.imp fun _ _ hs => hs.mono hdrawn
  response err := by
    refine ⟨status_failure call err, fun err' hkind => ?_⟩
    rw [toApi_failure_of_kind call hkind]
  writing before after path bytes err hscript := (call_numbers call).stops hplays hscript rfl
  reading before after path err hscript := (call_numbers call).stops hplays hscript rfl

/-- A signup that comes second for an email stops with a conflict. -/
theorem Call.fail_stop_email_taken :
    ∃ draft before failed, (Call.users (.create draft)).rows.run.Plays
        (before ++ [⟨.execute failed, .error (.duplicate "users_email_key")⟩])
        (.error (.conflict User.emailTakenMessage)) ∧
      (Call.users (.create draft)).FailsStop
        (before ++ [⟨.execute failed, .error (.duplicate "users_email_key")⟩])
        (.error (.conflict User.emailTakenMessage)) := by
  let draft : User.Draft := ⟨"Ada", "ada@example.edu", "", "London", "Mathematics", 1835, none, none⟩
  have hplays : ∃ failed, (Call.users (.create draft)).rows.run.Plays
      ([⟨.freshId, ""⟩] ++ [⟨.execute failed, .error (.duplicate "users_email_key")⟩])
      (.error (.conflict User.emailTakenMessage)) := ⟨_, .ask (.ask (.done _))⟩
  obtain ⟨failed, hplays⟩ := hplays
  exact ⟨draft, [⟨.freshId, ""⟩], failed, hplays, Call.fail_stop _ hplays⟩

end Tenancy
end JobTrail
