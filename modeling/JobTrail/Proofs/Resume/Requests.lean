import JobTrail.Proofs.Resume.Primary
import JobTrail.Resume.Endpoints
import Mathlib.Logic.Relation

/-!
# Requests for resumes

Requests that add, change and delete resumes, handled one at a time on faultless storage, by any users
and in any order. Each user keeps a single primary resume, with the profile pointing at its file, exactly
as long as the bodies of changes are honest: what is written to the flag makes the resume primary only if
the wire name of the flag says so too. A body can say it under another spelling alone, and then the
resumes that were primary before stay so.
-/

namespace JobTrail.Resume

open Sql Storage Relation

inductive Request where
  | create (caller : Caller) (body : Value)
  | upload (caller : Caller) (visit : Visit)
  | update (caller : Caller) (id : String) (body : Value)
  | delete (caller : Caller) (id : String)

namespace Request

def handler : Request → Handler Reply
  | create caller body => Endpoint.create caller body
  | upload caller visit => Endpoint.upload caller visit
  | update caller id body => Endpoint.update caller id body
  | delete caller id => Endpoint.delete caller id

def Sends (bodies : Value → Prop) : Request → Prop
  | update _ _ body => bodies body
  | _ => True

end Request

/-- One request is handled, and nothing else happens meanwhile. -/
def Handled (e : Engine) (bodies : Value → Prop) (s s' : Storage) : Prop :=
  ∃ (request : Request) (reply : Except Refusal Reply),
    request.Sends bodies ∧ request.handler.run.Runs e s reply s'

/-- No resumes yet, for users with these accounts. -/
def start (publicPath : String) (accounts : List Record) : Storage :=
  (Storage.empty publicPath).set "users" accounts

variable {e : Engine} {s s' : Storage} {bodies : Value → Prop}

theorem kept_start (publicPath : String) (accounts : List Record) : Kept (start publicPath accounts) := by
  refine ⟨⟨List.nodup_nil, ?_⟩, ?_⟩
  · intro r hr
    cases hr
  · intro owner
    refine .inl ?_
    intro r hr
    cases hr

/-! ## Checks leave storage alone -/

section Checks

variable {α : Type} {x : Except Refusal α}

theorem eq_of_runs_check {form : Form (Option α)} {fallback : String} {body : Value}
    (h : (Handler.check form fallback body).run.Runs e s x s') : s' = s := by
  rcases runs_andThen_iff.mp h with ⟨found, s₁, hform, hrest⟩ | ⟨_, hform, -⟩
  · obtain ⟨-, rfl⟩ := runs_ofExcept_iff.mp hform
    cases found with
    | some a => exact (runs_pure_iff.mp hrest).2
    | none => exact (runs_throw_iff.mp hrest).2
  · exact (runs_ofExcept_iff.mp hform).2

theorem eq_of_runs_sentForm {visit : Visit} {boundary : String} {y : Except Refusal SentForm}
    (h : (visit.sentForm boundary).run.Runs e s y s') : s' = s := by
  unfold Visit.sentForm at h
  simp only at h
  split at h
  · exact (runs_pure_iff.mp h).2
  · exact (runs_throw_iff.mp h).2

theorem check_eq_pure {form : Form (Option α)} {body : Value} {a : α}
    (h : form.run body = .ok (some a)) (fallback : String) :
    Handler.check form fallback body = pure a := by
  rw [Handler.check, h]
  rfl

end Checks

/-! ## Honest changes -/

theorem runs_of_endpoint {α : Type} {m : Service α} {f : α → Reply} {reply : Except Refusal Reply}
    (h : (do return f (← Handler.service m) : Handler Reply).run.Runs e s reply s') :
    ∃ x, m.run.Runs e s x s' := by
  rcases runs_andThen_iff.mp h with ⟨a, s₁, hservice, hrest⟩ | ⟨_, hservice, -⟩
  · obtain ⟨x, hm, -⟩ := runs_service_iff.mp hservice
    obtain ⟨-, rfl⟩ := runs_pure_iff.mp hrest
    exact ⟨x, hm⟩
  · obtain ⟨x, hm, -⟩ := runs_service_iff.mp hservice
    exact ⟨x, hm⟩

theorem kept_upload_request (h : Kept s) {caller : Caller} {visit : Visit} {reply : Except Refusal Reply}
    (hruns : (Endpoint.upload caller visit).run.Runs e s reply s') : Kept s' := by
  unfold Endpoint.upload at hruns
  split at hruns
  · obtain ⟨-, rfl⟩ := runs_throw_iff.mp hruns
    exact h
  · rcases runs_andThen_iff.mp hruns with ⟨sent, s₁, hsent, hrest⟩ | ⟨_, hsent, -⟩
    · obtain rfl := eq_of_runs_sentForm hsent
      rcases runs_andThen_iff.mp hrest with ⟨fields, s₂, hcheck, hstored⟩ | ⟨_, hcheck, -⟩
      · obtain rfl := eq_of_runs_check hcheck
        cases hfile : sent.file with
        | none =>
          simp only [hfile] at hstored
          obtain ⟨-, rfl⟩ := runs_throw_iff.mp hstored
          exact h
        | some file =>
          simp only [hfile] at hstored
          obtain ⟨x, hupload⟩ := runs_of_endpoint hstored
          exact kept_upload h hupload
      · obtain rfl := eq_of_runs_check hcheck
        exact h
    · obtain rfl := eq_of_runs_sentForm hsent
      exact h

theorem Kept.handled (h : Kept s)
    (honest : ∀ body, bodies body → patchForm.run body = .ok () → IsHonest body)
    (hhandled : Handled e bodies s s') : Kept s' := by
  obtain ⟨request, reply, hsends, hruns⟩ := hhandled
  cases request with
  | create caller body =>
    rcases runs_andThen_iff.mp hruns with ⟨draft, s₁, hcheck, hrest⟩ | ⟨_, hcheck, -⟩
    · obtain rfl := eq_of_runs_check hcheck
      obtain ⟨x, hcreate⟩ := runs_of_endpoint hrest
      exact kept_create h hcreate
    · obtain rfl := eq_of_runs_check hcheck
      exact h
  | upload caller visit =>
    exact kept_upload_request h hruns
  | update caller id body =>
    rcases runs_andThen_iff.mp hruns with ⟨_, s₁, hcheck, hrest⟩ | ⟨_, hcheck, -⟩
    · obtain ⟨hform, rfl⟩ := runs_ofExcept_iff.mp hcheck
      obtain ⟨x, hupdate⟩ := runs_of_endpoint hrest
      have haccepted : patchForm.run body = .ok () := by
        cases hrun : patchForm.run body with
        | ok _ => rfl
        | error err =>
          rw [hrun] at hform
          cases hform
      exact kept_update h (honest body hsends haccepted) hupdate
    · obtain ⟨-, rfl⟩ := runs_ofExcept_iff.mp hcheck
      exact h
  | delete caller id =>
    obtain ⟨x, hdelete⟩ := runs_of_endpoint hruns
    exact kept_delete h hdelete

/-! ## Changes that are not honest -/

section Runs

variable {id user : String} {new owner : Value} {draft : Draft} {patch : Value}

theorem Runs.create (hplain : draft.primary = false) (howner : castUuid (.text user) = .ok owner)
    (hnew : castUuid (.text id) = .ok new) (hissued : new ∉ s.issued) :
    (Resume.create user draft).run.Runs e s (.ok (newResume e new owner draft))
      (withResume e s new owner draft) := by
  have hflag : ¬ draft.primary = true := by simp [hplain]
  rw [Resume.create, if_neg hflag]
  apply Runs.andThen (runs_freshId_iff.mpr ⟨id, new, hnew, hissued, rfl, rfl⟩)
  apply Runs.andThen ((runs_add_iff hnew).mpr (.inl ⟨owner, howner, rfl, rfl⟩))
  apply Runs.andThen (runs_first_iff.mpr ⟨rfl, .inl ⟨_, rfl, rfl⟩⟩)
  rw [if_neg hflag]
  exact runs_pure_iff.mpr ⟨rfl, rfl⟩

theorem Runs.update {scope : Value × Value} (hscope : castScope id user = .ok scope) {r : Record}
    (hr : r ∈ s.db.rows "resumes") (hrow : IsRow scope.1 scope.2 r)
    (hne : patchedFields fields patch ≠ []) {sets : List (String × (Record → Value))}
    (hsets : assigned e patch = .ok sets)
    (hflag : (patch.get? "isPrimary").bind Value.flag? ≠ some true) :
    ∃ row, (Resume.update id user patch).run.Runs e s (.ok row)
      (s.set "resumes" ((s.db.rows "resumes").map fun r =>
        if IsRow scope.1 scope.2 r then change sets r else r)) := by
  have hfiltered : r ∈ (s.db.rows "resumes").filter fun r => IsRow scope.1 scope.2 r :=
    List.mem_filter.mpr ⟨hr, decide_eq_true hrow⟩
  obtain ⟨existing, hexisting⟩ : ∃ existing, (foundRows e scope s.db).head? = some existing :=
    Option.isSome_iff_exists.mp (List.isSome_head?.mpr (List.ne_nil_of_mem
      (List.mem_map_of_mem ((e.arrange_perm _ _).mem_iff.mpr hfiltered))))
  obtain ⟨row, hfirst⟩ := Option.isSome_iff_exists.mp (List.isSome_head?.mpr (List.ne_nil_of_mem
    (List.mem_map_of_mem (f := change sets) hfiltered)))
  have hs : updateTemplate.compile [.text id, .text user] patch = .ok _ :=
    (UpdateTemplate.compile_eq_ok_iff (by decide)).mpr ⟨hne, rfl⟩
  refine ⟨row, ?_⟩
  apply Runs.andThen (Runs.owned read?_existing (run_existing s.db) hscope hexisting)
  unfold Service.compile
  rw [hs]
  apply Runs.andThen (runs_pure_iff.mpr ⟨rfl, rfl⟩)
  rw [if_neg hflag]
  apply Runs.andThen ((runs_patch_iff hs).mpr
    (.inl ⟨(sets, scope), castPatch_eq_ok_iff.mpr ⟨hsets, hscope⟩, rfl, rfl⟩))
  exact runs_first_iff.mpr ⟨rfl, .inl ⟨row, hfirst, rfl⟩⟩

end Runs

theorem Runs.endpoint {α : Type} {m : Service α} {a : α} (h : m.run.Runs e s (.ok a) s') (f : α → Reply) :
    (do return f (← Handler.service m) : Handler Reply).run.Runs e s (.ok (f a)) s' :=
  Runs.andThen (runs_service_iff.mpr ⟨.ok a, h, rfl⟩) (runs_pure_iff.mpr ⟨rfl, rfl⟩)

def plainBody : Value :=
  .record [("name", .text "CV"), ("fileName", .text "cv.pdf"), ("fileUri", .text "/files/cv.pdf")]

def plainDraft : Draft := ⟨"CV", "cv.pdf", "/files/cv.pdf", false⟩

theorem draftForm_plainBody : draftForm.run plainBody = .ok (some plainDraft) := by decide

theorem handled_create {id : String} {new owner : Value} {caller : Caller}
    (howner : castUuid (.text caller.userId) = .ok owner) (hnew : castUuid (.text id) = .ok new)
    (hissued : new ∉ s.issued) : Handled e bodies s (withResume e s new owner plainDraft) := by
  have hruns : (Endpoint.create caller plainBody).run.Runs e s
      (.ok (Reply.createdRow (newResume e new owner plainDraft))) (withResume e s new owner plainDraft) := by
    rw [Endpoint.create, check_eq_pure draftForm_plainBody, pure_bind]
    exact Runs.endpoint (Runs.create rfl howner hnew hissued) Reply.createdRow
  exact ⟨.create caller plainBody, _, trivial, hruns⟩

theorem handled_update (caller : Caller) {id : String} {scope : Value × Value} {body : Value}
    (hbody : bodies body) (haccepted : patchForm.run body = .ok ())
    (hscope : castScope id caller.userId = .ok scope) (before : List Record) {after : List Record} {r : Record}
    (hrows : s.db.rows "resumes" = before ++ r :: after) (hrow : IsRow scope.1 scope.2 r)
    (hothers : ∀ other ∈ before ++ after, other.column "id" ≠ scope.1)
    (hne : patchedFields fields body ≠ []) {sets : List (String × (Record → Value))}
    (hsets : assigned e body = .ok sets)
    (hflag : (body.get? "isPrimary").bind Value.flag? ≠ some true) :
    Handled e bodies s (s.set "resumes" (before ++ change sets r :: after)) := by
  have hr : r ∈ s.db.rows "resumes" := by simp [hrows]
  obtain ⟨row, hupdate⟩ := Runs.update hscope hr hrow hne hsets hflag
  have hruns : (Endpoint.update caller id body).run.Runs e s (.ok (Reply.row row)) _ :=
    Runs.andThen (runs_ofExcept_iff.mpr ⟨by rw [haccepted]; rfl, rfl⟩) (Runs.endpoint hupdate Reply.row)
  have hkeep : ∀ l : List Record, (∀ other ∈ l, other.column "id" ≠ scope.1) →
      (l.map fun r => if IsRow scope.1 scope.2 r then change sets r else r) = l := by
    intro l hl
    refine (List.map_congr_left ?_).trans (List.map_id' l)
    intro other hother
    exact if_neg fun hrow => hl other hother hrow.1
  obtain ⟨hbefore, hafter⟩ := List.forall_mem_append.mp hothers
  rw [hrows, List.map_append, List.map_cons, if_pos hrow, hkeep before hbefore, hkeep after hafter] at hruns
  exact ⟨.update caller id body, _, hbody, hruns⟩

theorem assigned_of_not_isHonest (e : Engine) {body : Value} (h : ¬ IsHonest body) :
    patchedFields fields body ≠ [] ∧ (body.get? "isPrimary").bind Value.flag? ≠ some true ∧
      ∃ sets, assigned e body = .ok sets ∧ ∀ r, (change sets r).column "is_primary" = .bool true := by
  obtain ⟨key, v, hlast, hcast, hflag⟩ : ∃ key v, body.lastSpelled? "is_primary" = some (key, v) ∧
      castBoolean v = .ok (.bool true) ∧ (body.get? "isPrimary").bind Value.flag? ≠ some true := by
    simpa [IsHonest] using h
  have hmem : ("is_primary", v.toSnake) ∈ patchedFields fields body :=
    mem_patchedFields_iff.mpr ⟨by decide, key, v, hlast, rfl⟩
  have hcasts : ∀ key' v', body.lastSpelled? "is_primary" = some (key', v') →
      ∃ w, castBoolean v' = .ok w := by
    intro key' v' hlast'
    cases hlast.symm.trans hlast'
    exact ⟨_, hcast⟩
  obtain ⟨sets, hsets⟩ := exists_assigned e body hcasts
  refine ⟨List.ne_nil_of_mem hmem, hflag, sets, hsets, ?_⟩
  intro r
  exact (Except.ok.inj (hcast.symm.trans (primary_assigned hsets hlast r))).symm

theorem exists_two_primaries (e : Engine) (publicPath : String) (accounts : List Record) {body : Value}
    (hbody : bodies body) (haccepted : patchForm.run body = .ok ()) (hdishonest : ¬ IsHonest body) :
    ∃ s, ReflTransGen (Handled e bodies) (start publicPath accounts) s ∧ ¬ SinglePrimary s.db := by
  obtain ⟨hne, hflag, sets, hsets, hprimary⟩ := assigned_of_not_isHonest e hdishonest
  let caller : Caller := ⟨Uuid.print (List.replicate 32 1), "student@example.edu"⟩
  let owner : Value := .text (Uuid.print (List.replicate 32 1))
  let a : Value := .text (Uuid.print (List.replicate 32 2))
  let b : Value := .text (Uuid.print (List.replicate 32 3))
  have howner : castUuid (.text caller.userId) = .ok owner := castUuid_replicate (by decide)
  have ha : castUuid a = .ok a := castUuid_replicate (by decide)
  have hb : castUuid b = .ok b := castUuid_replicate (by decide)
  have hab : a ≠ b := by decide
  obtain ⟨hfirst, hfirstOwner, -, -⟩ := newResume_columns e a owner plainDraft
  obtain ⟨hsecond, hsecondOwner, -, -⟩ := newResume_columns e b owner plainDraft
  let first := newResume e a owner plainDraft
  let second := newResume e b owner plainDraft
  have hkeep : ∀ c ∉ fields, ∀ r, (change sets r).column c = r.column c := fun c hc r =>
    column_assigned hsets hc r
  have hid : (change sets first).column "id" = a := (hkeep "id" (by decide) first).trans hfirst
  let s₁ := withResume e (start publicPath accounts) a owner plainDraft
  let s₂ := withResume e s₁ b owner plainDraft
  let s₃ := s₂.set "resumes" [change sets first, second]
  let s₄ := s₃.set "resumes" [change sets first, change sets second]
  have h₁ : Handled e bodies (start publicPath accounts) s₁ := handled_create howner ha List.not_mem_nil
  have hissued : b ∉ [a] := fun hmem => hab (List.mem_singleton.mp hmem).symm
  have h₂ : Handled e bodies s₁ s₂ := handled_create howner hb hissued
  have h₃ : Handled e bodies s₂ s₃ := by
    have hscope : castScope (Uuid.print (List.replicate 32 2)) caller.userId = .ok (a, owner) :=
      castScope_eq_ok_iff.mpr ⟨ha, howner⟩
    apply handled_update caller hbody haccepted hscope [] rfl ⟨hfirst, hfirstOwner⟩ _ hne hsets hflag
    intro other hother
    rw [List.mem_singleton.mp hother, hsecond]
    exact hab.symm
  have h₄ : Handled e bodies s₃ s₄ := by
    have hscope : castScope (Uuid.print (List.replicate 32 3)) caller.userId = .ok (b, owner) :=
      castScope_eq_ok_iff.mpr ⟨hb, howner⟩
    apply handled_update caller hbody haccepted hscope [change sets first] rfl ⟨hsecond, hsecondOwner⟩ _ hne
      hsets hflag
    intro other hother
    rw [List.mem_singleton.mp hother, hid]
    exact hab
  refine ⟨s₄, (((ReflTransGen.single h₁).tail h₂).tail h₃).tail h₄, ?_⟩
  intro hsingle
  have hall : ∀ r ∈ [change sets first, change sets second], decide (IsPrimary owner r) = true := by
    intro r hr
    apply decide_eq_true
    rcases List.mem_pair.mp hr with rfl | rfl
    · exact ⟨(hkeep "user_id" (by decide) first).trans hfirstOwner, hprimary first⟩
    · exact ⟨(hkeep "user_id" (by decide) second).trans hsecondOwner, hprimary second⟩
  have hlength : ([change sets first, change sets second].filter (IsPrimary owner ·)).length ≤ 1 :=
    hsingle.single owner
  rw [List.filter_eq_self.mpr hall] at hlength
  exact absurd hlength (by simp)

/-! ## Exactly when the primary resume is single -/

/-- Whatever requests any users make, each of them has at most one primary resume and a profile that
points at its file, exactly if every accepted body of a change is honest. -/
theorem single_primary_iff (e : Engine) (publicPath : String) (accounts : List Record)
    (bodies : Value → Prop) :
    (∀ s, ReflTransGen (Handled e bodies) (start publicPath accounts) s → SinglePrimary s.db) ↔
      ∀ body, bodies body → patchForm.run body = .ok () → IsHonest body := by
  constructor
  · intro hsingle body hbody haccepted
    by_contra hdishonest
    obtain ⟨s, hreach, hnot⟩ := exists_two_primaries e publicPath accounts hbody haccepted hdishonest
    exact hnot (hsingle s hreach)
  · intro honest s hreach
    have hkept : Kept s := by
      induction hreach with
      | refl => exact kept_start publicPath accounts
      | tail _ hhandled ih => exact ih.handled honest hhandled
    exact hkept.singlePrimary

/-- The storage spelling of the flag makes a second resume primary. -/
theorem snake_case_flag_adds_primary :
    let body := Value.record [("is_primary", .bool true)]
    patchForm.run body = .ok () ∧
      ∃ s, ReflTransGen (Handled .plain (· = body)) (start "/files" []) s ∧ ¬ SinglePrimary s.db := by
  intro body
  have hdishonest : ¬ IsHonest body := by
    intro honest
    have hflag := honest "is_primary" (.bool true) (by decide) rfl
    cases hflag
  exact ⟨rfl, exists_two_primaries .plain "/files" [] rfl rfl hdishonest⟩

end JobTrail.Resume
