import JobTrail.Proofs.Company.Creation
import JobTrail.Proofs.Service.Composition
import JobTrail.Proofs.Sql.Placeholders
import JobTrail.Proofs.Tenancy.Calls
import JobTrail.Proofs.User.Targets

/-!
# The statements of services

Every call of every service is composed of statements whose placeholders are those of their parameters. Fixed
texts are checked one by one; the statement of a patch is numbered for every patch that can be compiled.
Database errors go to the caller as they are, but for a signup, which says what a duplicate means.
-/

set_option maxRecDepth 8192

namespace JobTrail

open Sql Statement Service

/-! ## Signups -/

namespace User

/-- What a signup makes of a database error. -/
def creationFailure : DatabaseError → ServiceError
  | .duplicate _ => .conflict emailTakenMessage
  | err => .database err

end User

namespace Tenancy

variable {α : Type}

/-- A service of numbered statements. -/
abbrev Numbers (failure : DatabaseError → ServiceError) (m : Service α) : Prop :=
  Composed Numbered failure m

theorem Numbers.one {failure : DatabaseError → ServiceError} {m : Service Record} (h : Numbers failure m) :
    Numbers failure (do return [← m]) :=
  h.bind fun _ => .pure _

theorem Numbers.none {failure : DatabaseError → ServiceError} {m : Service α} (h : Numbers failure m) :
    Numbers failure (do
      let _ ← m
      return ([] : List Record)) :=
  h.bind fun _ => .pure _

/-- The last steps of an update of a row. -/
theorem numbers_patch {t : UpdateTemplate} {scope : List Value} {patch : Value} {missing : String}
    (h : t.Dollarless) (hne : t.scope ≠ []) (hlength : scope.length = t.scope.length) :
    Numbers .database (do
      let statement ← Service.compile t scope patch
      let rows ← Service.execute statement.sql statement.params
      Service.first rows missing) :=
  .compile_andThen fun _ hs =>
    (Composed.execute (UpdateTemplate.numbered_compile h hne hlength hs)).bind fun rows => .first rows missing

/-! ## Applications -/

theorem application_numbers (c : ApplicationCall) (user : String) : Numbers .database (c.rows user) := by
  have hfind : ∀ id, Numbers .database (Application.find id user) := fun id =>
    .owned (numbered_of_spells (spells_ofList _) 2 (by decide) rfl) _
  cases c with
  | list => exact .execute (numbered_of_spells (spells_ofList _) 1 (by decide) rfl)
  | find id => exact (hfind id).one
  | create draft =>
    refine Numbers.one (.insert_andThen (fun id => ?_) fun rows => .first rows _)
    exact numbered_of_spells ((((spells_ofList _).append (spells_ofList _)).append (spells_ofList _)).append
      (spells_ofList _)) 9 (by decide) rfl
  | update id patch =>
    exact Numbers.one ((hfind id).bind fun _ => numbers_patch (by decide) (by decide) rfl)
  | delete id =>
    refine Numbers.none (Composed.bind (.owned ?_ _) fun _ => .pure ())
    exact numbered_of_spells (spells_ofList _) 2 (by decide) rfl

/-! ## Checklist items -/

theorem checklist_post_numbers (user : String) (draft : Checklist.Draft) :
    Numbers .database (Checklist.post user draft) := by
  unfold Checklist.post
  split
  · refine Composed.bind (.execute (numbered_of_spells ((spells_ofList _).append (spells_ofList _)) 3
      (by decide) rfl)) fun rows => ?_
    cases rows.head? with
    | none =>
      refine Composed.bind (.insert_andThen (fun id => ?_) fun rows => .first rows _) fun _ => .pure _
      exact numbered_of_spells (((spells_ofList _).append (spells_ofList _)).append (spells_ofList _)) 7
        (by decide) rfl
    | some row =>
      refine Composed.bind (.bind (.execute ?_) fun rows => .first rows _) fun _ => .pure _
      exact numbered_of_spells (((spells_ofList _).append (spells_ofList _)).append (spells_ofList _)) 4
        (by decide) rfl
  · exact .throw _

theorem checklist_numbers (c : ChecklistCall) (user : String) : Numbers .database (c.rows user) := by
  have hfind : ∀ id, Numbers .database (Checklist.find id user) := fun id =>
    .owned (numbered_of_spells (spells_ofList _) 2 (by decide) rfl) _
  cases c with
  | list company =>
    cases company with
    | none => exact .execute (numbered_of_spells (spells_ofList _) 1 (by decide) rfl)
    | some company =>
      simp only [ChecklistCall.rows, Checklist.list]
      split
      · exact .execute (numbered_of_spells ((spells_ofList _).append (spells_ofList _)) 2 (by decide) rfl)
      · exact .pure _
  | find id => exact (hfind id).one
  | post draft => exact (checklist_post_numbers user draft).bind fun _ => .pure _
  | update id patch =>
    exact Numbers.one ((hfind id).bind fun _ => numbers_patch (by decide) (by decide) rfl)
  | delete id =>
    refine Numbers.none (Composed.bind (.owned ?_ _) fun _ => .pure ())
    exact numbered_of_spells (spells_ofList _) 2 (by decide) rfl

/-! ## Resumes -/

theorem resume_find_numbers (id user : String) : Numbers .database (Resume.find id user) :=
  .owned (numbered_of_spells (spells_ofList _) 2 (by decide) rfl) _

theorem pointProfile_numbers (user : String) (fileUri : Value) :
    Numbers .database (Resume.pointProfile user fileUri) :=
  Composed.bind (.execute (numbered_of_spells (spells_ofList _) 2 (by decide) rfl)) fun _ => .pure _

theorem resume_create_numbers (user : String) (draft : Resume.Draft) :
    Numbers .database (Resume.create user draft) := by
  refine .whether (fun hrest => ?_) ?_
  · exact Composed.bind (.execute (numbered_of_spells (spells_ofList _) 1 (by decide) rfl)) fun _ => hrest
  · refine .insert_andThen (fun id => ?_) fun rows => (Composed.first rows _).bind fun resume => ?_
    · exact numbered_of_spells (((spells_ofList _).append (spells_ofList _)).append (spells_ofList _)) 6
        (by decide) rfl
    · exact .whether (fun hrest => (pointProfile_numbers user _).bind fun _ => hrest) (.pure _)

theorem resume_update_numbers (id user : String) (patch : Value) :
    Numbers .database (Resume.update id user patch) := by
  refine Composed.bind (.owned (numbered_of_spells (spells_ofList _) 2 (by decide) rfl) _) fun existing => ?_
  refine .compile_andThen fun statement hs => ?_
  have hnumbered := UpdateTemplate.numbered_compile (by decide) (by decide) rfl hs
  refine .whether (fun hrest => ?_) ((Composed.execute hnumbered).bind fun rows => .first rows _)
  refine Composed.bind (.execute (numbered_of_spells (spells_ofList _) 2 (by decide) rfl)) fun _ => ?_
  exact (pointProfile_numbers user _).bind fun _ => hrest

theorem readFile_numbers (path missing : String) : Numbers .database (Resume.readFile path missing) :=
  (Composed.getBlob path).bind fun found => .orMissing found missing

theorem resume_download_numbers (id user : String) : Numbers .database (Resume.download id user) := by
  refine Composed.bind (.owned (numbered_of_spells (spells_ofList _) 2 (by decide) rfl) _) fun row => ?_
  refine (Composed.orMissing _ _).bind fun uri => (Composed.locateBlob uri).bind fun found => ?_
  refine (Composed.orMissing found _).bind fun path => ?_
  exact (readFile_numbers path _).bind fun _ => .pure _

theorem resume_numbers (c : ResumeCall) (user : String) : Numbers .database (c.rows user) := by
  cases c with
  | list => exact .execute (numbered_of_spells (spells_ofList _) 1 (by decide) rfl)
  | find id => exact (resume_find_numbers id user).one
  | create draft => exact (resume_create_numbers user draft).one
  | upload name fileName bytes primary =>
    exact Numbers.one ((Composed.putBlob _ bytes).bind fun _ => resume_create_numbers user _)
  | update id patch => exact (resume_update_numbers id user patch).one
  | delete id =>
    refine Numbers.none (Composed.bind (.owned ?_ _) fun _ => .pure ())
    exact numbered_of_spells (spells_ofList _) 2 (by decide) rfl
  | download id => exact (resume_download_numbers id user).none

/-! ## Tailored resumes -/

theorem tailored_check_numbers (id user missing : String) :
    Numbers .database (Tailored.check id user missing) :=
  .owned (numbered_of_spells (spells_ofList _) 2 (by decide) rfl) missing

theorem tailored_update_numbers (id user : String) (change : Tailored.Change) :
    Numbers .database (Tailored.update id user change) := by
  have hstore : Numbers .database (Tailored.storeFile id change.file) := by
    cases change.file with
    | none => exact .pure _
    | some bytes => exact (Composed.putBlob _ bytes).bind fun _ => .pure _
  refine (tailored_check_numbers id user _).bind fun _ => hstore.bind fun file => ?_
  simp only
  split
  · exact .throw _
  · rename_i statement hs
    have hnumbered := UpdateTemplate.numbered_compile (by decide) (by decide) rfl hs
    exact (Composed.execute hnumbered).bind fun rows => .first rows _

theorem tailored_numbers (c : TailoredCall) (user : String) : Numbers .database (c.rows user) := by
  have hselection : Spells Tailored.selection _ :=
    ((spells_ofList _).append (spells_ofList _)).append (spells_ofList _)
  cases c with
  | list => exact .execute (numbered_of_spells (hselection.append (spells_ofList _)) 1 (by decide) rfl)
  | find id =>
    exact Numbers.one (.owned (numbered_of_spells (hselection.append (spells_ofList _)) 2 (by decide) rfl) _)
  | create draft =>
    refine Numbers.one ((resume_find_numbers draft.originalId user).bind fun _ => ?_)
    refine .insert_andThen (fun id => ?_) fun rows => .first rows _
    exact numbered_of_spells ((((spells_ofList _).append (spells_ofList _)).append (spells_ofList _)).append
      (spells_ofList _)) 6 (by decide) rfl
  | update id change => exact (tailored_update_numbers id user change).one
  | delete id =>
    refine Numbers.none (Composed.bind (.owned ?_ _) fun _ => .pure ())
    exact numbered_of_spells (spells_ofList _) 2 (by decide) rfl
  | download id =>
    refine Numbers.none ((tailored_check_numbers id user _).bind fun _ => ?_)
    exact (readFile_numbers _ _).bind fun _ => .pure _

/-! ## Accounts -/

theorem user_create_numbers (draft : User.Draft) : Numbers User.creationFailure (User.create draft) := by
  refine .insert_caught_andThen (fun err => by cases err <;> rfl) (fun id => ?_) fun rows => .first rows _
  exact numbered_of_spells ((((((spells_ofList _).append (spells_ofList _)).append (spells_ofList _)).append
    (spells_ofList _)).append (spells_ofList _)).append (spells_ofList _)) 9 (by decide) rfl

theorem user_find_numbers (id : String) : Numbers .database (User.find id) := by
  refine Composed.bind (.execute ?_) fun rows => (Composed.first rows _).bind fun user => ?_
  · exact numbered_of_spells (((spells_ofList _).append ((spells_ofList _).append (spells_ofList _))).append
      (spells_ofList _)) 1 (by decide) rfl
  · refine Composed.bind (.execute (numbered_of_spells ((spells_ofList _).append (spells_ofList _)) 1
      (by decide) rfl)) fun _ => ?_
    refine Composed.bind (.execute (numbered_of_spells (spells_ofList _) 1 (by decide) rfl)) fun _ => ?_
    refine Composed.bind (.execute (numbered_of_spells (spells_ofList _) 1 (by decide) rfl)) fun _ => ?_
    exact Composed.bind (.execute (numbered_of_spells (spells_ofList _) 1 (by decide) rfl)) fun _ => .pure _

theorem targetTable_numbered {t : User.TargetTable} (h : t ∈ User.TargetTable.all) (id value : String) :
    (t.clear id).Numbered ∧ (t.add id value).Numbered := by
  simp only [User.TargetTable.all, List.mem_cons, List.not_mem_nil, or_false] at h
  rcases h with rfl | rfl | rfl | rfl
  all_goals
    constructor
    · exact numbered_of_spells (((spells_ofList _).append (spells_ofList _)).append (spells_ofList _)) 1
        (by decide) rfl
    · exact numbered_of_spells (((((((spells_ofList _).append (spells_ofList _)).append
        (spells_ofList _)).append (spells_ofList _)).append (spells_ofList _)).append
        (spells_ofList _)).append (spells_ofList _)) 2 (by decide) rfl

theorem replaceTargets_numbers (id : String) (targets : User.Targets) :
    Numbers .database (User.replaceTargets id targets) := by
  rw [User.replaceTargets_eq]
  refine .forM fun l hl => ?_
  have hall : l.1 ∈ User.TargetTable.all := by
    simp only [User.Targets.lists, List.mem_cons, List.not_mem_nil, or_false] at hl
    rcases hl with rfl | rfl | rfl | rfl <;> simp [User.TargetTable.all]
  cases l.2 with
  | none => exact .pure ()
  | some values =>
    refine Composed.bind (.execute (targetTable_numbered hall id "").1) fun _ => .forM fun value _ => ?_
    exact Composed.bind (.execute (targetTable_numbered hall id value).2) fun _ => .pure ()

/-! ## Companies -/

theorem nestedTable_numbered {t : Company.NestedTable} (h : t ∈ Company.NestedTable.all) (id : String)
    (company element : Value) : (t.insertion id company element).Numbered := by
  simp only [Company.NestedTable.all, List.mem_cons, List.not_mem_nil, or_false] at h
  rcases h with rfl | rfl | rfl
  · exact numbered_of_spells ((spells_ofList _).append (spells_ofList _)) 7 (by decide) rfl
  · exact numbered_of_spells ((spells_ofList _).append (spells_ofList _)) 8 (by decide) rfl
  · exact numbered_of_spells ((spells_ofList _).append (spells_ofList _)) 5 (by decide) rfl

theorem company_find_numbers (id : String) : Numbers .database (Company.find id) := by
  unfold Company.find
  split
  · refine Composed.bind (.execute (numbered_of_spells (spells_ofList _) 1 (by decide) rfl)) fun rows => ?_
    refine (Composed.first rows _).bind fun company => ?_
    refine Composed.bind (.execute (numbered_of_spells (spells_ofList _) 1 (by decide) rfl)) fun _ => ?_
    refine Composed.bind (.execute (numbered_of_spells (spells_ofList _) 1 (by decide) rfl)) fun _ => ?_
    refine Composed.bind (.execute ?_) fun _ => .pure _
    exact numbered_of_spells ((spells_ofList _).append (spells_ofList _)) 1 (by decide) rfl
  · exact .throw _

theorem company_create_numbers (draft : Company.Draft) : Numbers .database (Company.create draft) := by
  rw [Company.create_eq]
  refine Composed.bind (.execute (numbered_of_spells (spells_ofList _) 1 (by decide) rfl)) fun found => ?_
  split
  · refine .insert_andThen (fun id => ?_) fun rows => (Composed.first rows _).bind fun company => ?_
    · exact numbered_of_spells (((spells_ofList _).append (spells_ofList _)).append (spells_ofList _)) 6
        (by decide) rfl
    · refine Composed.bind (.forM fun p hp => ?_) fun _ => .pure _
      exact .insert_andThen (fun id => nestedTable_numbered (Company.Draft.mem_all hp) id _ p.2) fun _ => .pure ()
  · exact .throw _

/-! ## All calls -/

/-- What a call makes of a database error. -/
def Call.failure : Call → DatabaseError → ServiceError
  | .users (.create _) => User.creationFailure
  | _ => .database

theorem call_numbers (call : Call) : Numbers call.failure call.rows := by
  cases call with
  | applications user c => exact application_numbers c user
  | checklist user c => exact checklist_numbers c user
  | resumes user c => exact resume_numbers c user
  | tailored user c => exact tailored_numbers c user
  | users c =>
    cases c with
    | emailTaken email =>
      refine Numbers.none (Composed.bind (.execute ?_) fun _ => .pure _)
      exact numbered_of_spells (spells_ofList _) 1 (by decide) rfl
    | create draft => exact (user_create_numbers draft).one
    | credentials email =>
      refine Composed.bind (.bind (.execute ?_) fun _ => .pure _) fun _ => .pure _
      exact numbered_of_spells ((spells_ofList _).append (spells_ofList _)) 1 (by decide) rfl
    | find id => exact (user_find_numbers id).one
    | update id patch =>
      exact Numbers.one (numbers_patch (t := User.updateTemplate) (by decide) (by decide) rfl)
    | replaceTargets id targets => exact (replaceTargets_numbers id targets).none
    | stats id =>
      refine Numbers.one (Composed.bind (.execute ?_) fun rows => .first rows _)
      exact numbered_of_spells (spells_ofList _) 1 (by decide) rfl
  | companies c =>
    cases c with
    | list =>
      have hlist : Numbers .database Company.list :=
        .execute (numbered_of_spells (spells_ofList _) 0 (by decide) rfl)
      exact hlist
    | find id => exact (company_find_numbers id).one
    | create draft => exact (company_create_numbers draft).one

/-- Whatever storage answers, a call asks for no statement whose placeholders are not its parameters. -/
theorem Call.statements_numbered (call : Call) {script : List Exchange}
    {x : Except ServiceError (List Record)} (hplays : call.rows.run.Plays script x) :
    ∀ s ∈ Script.statements script, s.Numbered :=
  (call_numbers call).statements_satisfy hplays

theorem Call.statements_numbered_targets :
    (Call.users (.replaceTargets "" User.unknownCompany)).rows.run.Plays (User.refusal "")
        (.error (.database .failed)) ∧
      (User.companyTargets.clear "").Numbered ∧ (User.companyTargets.add "" "nowhere").Numbered := by
  have hplays : (Call.users (.replaceTargets "" User.unknownCompany)).rows.run.Plays (User.refusal "")
      (.error (.database .failed)) := .ask (.ask (.done _))
  have hnumbered := Call.statements_numbered _ hplays
  exact ⟨hplays, hnumbered _ (.head _), hnumbered _ (.tail _ (.head _))⟩

end Tenancy
end JobTrail
