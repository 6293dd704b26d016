import JobTrail.Http.Place
import JobTrail.Proofs.Gate.Checks
import JobTrail.Proofs.Task.Scripts
import JobTrail.Proofs.Tenancy.Calls

/-!
# Handlers behind their checks

A handler looks at the request first and makes one call of a service then. `Decides` describes a look: it
asks nothing of the world, and it fails only with an answer that blames the client. `Opens` describes a
whole handler: under a condition it has the scripts of a call that is made for a given user, and otherwise
it refuses. A look in front of a handler is one more condition, so a handler is taken apart look by look.
-/

namespace JobTrail

open Tenancy

/-! ## The user of a call -/

namespace Tenancy

def UserCall.account? : UserCall → Option String
  | find id | update id _ | replaceTargets id _ | stats id => some id
  | emailTaken _ | create _ | credentials _ => none

/-- The user id that a call hands to its service. -/
def Call.user? : Call → Option String
  | users c => c.account?
  | c => c.caller

end Tenancy

/-! ## Refusing, looking, calling -/

def Refusal.BlamesClient (refusal : Refusal) : Prop :=
  400 ≤ refusal.response.status ∧ refusal.response.status < 500

@[simp] theorem Refusal.blamesClient_api (err : ApiError) :
    (Refusal.api err).BlamesClient ↔ 400 ≤ err.status ∧ err.status < 500 := Iff.rfl

@[simp] theorem Refusal.blamesClient_malformed (message : String) :
    (Refusal.malformed message).BlamesClient := by
  simp [BlamesClient, response, HttpResponse.text]

namespace Handler

variable {α β : Type} {m : Handler α} {f : α → Handler β} {G : α → Prop} {H : α → Prop} {P : Prop}
  {user : Option String}

def Refuses (m : Handler α) : Prop :=
  ∃ refusal : Refusal, m.run = .done (.error refusal) ∧ refusal.BlamesClient

def Makes (m : Handler α) (call : Call) : Prop := Task.SameScripts m.run call.rows.run

/-- A look at the request: it passes with the one value that `G` tells, or it refuses. -/
structure Decides (m : Handler α) (G : α → Prop) : Prop where
  passes : ∀ a, G a → m.run = .done (.ok a)
  refuses : (∀ a, ¬ G a) → m.Refuses

/-- The handler makes a call for the user if `P` holds, and refuses otherwise. -/
structure Opens (user : Option String) (m : Handler α) (P : Prop) : Prop where
  makes : P → ∃ call : Call, call.user? = user ∧ m.Makes call
  refuses : ¬ P → m.Refuses

theorem run_andThen_ok {a : α} (h : m.run = .done (.ok a)) : (m >>= f).run = (f a).run := by
  have hbind : (m >>= f).run = m.run.bind (ExceptT.bindCont f) := rfl
  rw [hbind, h]
  rfl

theorem Refuses.andThen (h : m.Refuses) : (m >>= f).Refuses := by
  obtain ⟨refusal, hrun, hclient⟩ := h
  refine ⟨refusal, ?_, hclient⟩
  have hbind : (m >>= f).run = m.run.bind (ExceptT.bindCont f) := rfl
  rw [hbind, hrun]
  rfl

theorem Decides.andThen (hm : m.Decides G) (hf : ∀ a, G a → (f a).Opens user (H a)) :
    (m >>= f).Opens user (∃ a, G a ∧ H a) := by
  constructor
  · rintro ⟨a, ha, hH⟩
    obtain ⟨call, hcall, hmakes⟩ := (hf a ha).makes hH
    refine ⟨call, hcall, ?_⟩
    rw [Makes, run_andThen_ok (hm.passes a ha)]
    exact hmakes
  · intro hnot
    by_cases hpass : ∃ a, G a
    · obtain ⟨a, ha⟩ := hpass
      obtain ⟨refusal, hrun, hclient⟩ := (hf a ha).refuses fun hH => hnot ⟨a, ha, hH⟩
      exact ⟨refusal, (run_andThen_ok (hm.passes a ha)).trans hrun, hclient⟩
    · exact (hm.refuses (not_exists.mp hpass)).andThen

theorem Opens.congr {Q : Prop} (h : m.Opens user P) (hPQ : P ↔ Q) : m.Opens user Q :=
  ⟨fun hQ => h.makes (hPQ.mpr hQ), fun hQ => h.refuses fun hP => hQ (hPQ.mp hP)⟩

theorem Refuses.opens (h : m.Refuses) (hP : ¬ P) : m.Opens user P := ⟨fun hp => absurd hp hP, fun _ => h⟩

theorem Opens.answer (h : m.Opens user P) (hf : ∀ a, ∃ x, (f a).run = .done x) :
    (m >>= f).Opens user P := by
  constructor
  · intro hP
    obtain ⟨call, hcall, hmakes⟩ := h.makes hP
    exact ⟨call, hcall, (Task.sameScripts_andThen hf).trans hmakes⟩
  · intro hP
    exact (h.refuses hP).andThen

/-! ## Looks -/

theorem decides_of_run_eq {x : Except Refusal α} (hrun : m.run = .done x)
    (hclient : ∀ refusal, x = .error refusal → refusal.BlamesClient) : m.Decides fun a => x = .ok a := by
  constructor
  · intro a ha
    rw [hrun, ha]
  · intro hnot
    cases x with
    | ok a => exact absurd rfl (hnot a)
    | error refusal => exact ⟨refusal, hrun, hclient refusal rfl⟩

theorem decides_ofExcept {x : Except ApiError α}
    (hclient : ∀ err, x = .error err → (Refusal.api err).BlamesClient) :
    (ofExcept x).Decides fun a => x = .ok a := by
  constructor
  · intro a ha
    rw [ha]
    rfl
  · intro hnot
    cases x with
    | ok a => exact absurd rfl (hnot a)
    | error err => exact ⟨.api err, rfl, hclient err rfl⟩

theorem decides_pathId (raw : String) :
    (pathId raw).Decides fun id => Percent.decodeText? raw = some id := by
  unfold pathId
  constructor
  · intro id hid
    rw [hid]
    rfl
  · intro hnot
    cases hid : Percent.decodeText? raw with
    | some id => exact absurd hid (hnot id)
    | none => exact ⟨.malformed _, rfl, by simp⟩

theorem decides_json (v : Visit) : v.json.Decides fun body => v.jsonBody = .ok body := by
  apply decides_ofExcept
  intro err h
  unfold Visit.jsonBody at h
  split at h
  · cases h
    simp [ApiError.status]
  · split at h
    · cases h
      simp [ApiError.status]
    · split at h
      · cases h
      · cases h
        simp [ApiError.status]

theorem jsonBody_of_read {v : Visit} {text : List Char} {body : Value}
    (hmedia : v.request.mediaType?.any MediaType.isJson = true) (hsize : v.request.body.size ≤ v.bodyLimit)
    (htext : Utf8.leading v.request.body.data.toList = text) (hread : Json.readLeading? text = some body) :
    v.jsonBody = .ok body := by
  have hbytes : Json.readLeadingBytes? v.request.body = some body := by
    rw [Json.readLeadingBytes?, htext, hread]
  simp [Visit.jsonBody, hmedia, Nat.not_lt.mpr hsize, hbytes]

theorem decides_form (form : Form α) (body : Value) :
    (ofExcept (form.run body)).Decides fun a => form.run body = .ok a := by
  apply decides_ofExcept
  intro err h
  unfold Form.run at h
  split at h
  · cases h
  · cases h
    simp [ApiError.status]

theorem decides_checkOnly {form : Form Unit} {checks : List Check} (h : form.Tests checks) (body : Value) :
    (checkOnly form body).Decides fun _ => Passes checks body := by
  have hform := decides_form form body
  constructor
  · intro a hpasses
    obtain ⟨⟨⟩, hrun⟩ := (h.accepts_iff body).mpr hpasses
    exact hform.passes a hrun
  · intro hnot
    apply hform.refuses
    intro a hrun
    exact hnot a ((h.accepts_iff body).mp ⟨a, hrun⟩)

theorem decides_check (form : Form (Option α)) (fallback : String) (body : Value) :
    (check form fallback body).Decides fun a => form.run body = .ok (some a) := by
  have hform := decides_form form body
  unfold check
  constructor
  · intro a ha
    rw [run_andThen_ok (hform.passes _ ha)]
    rfl
  · intro hnot
    by_cases hrun : ∃ a, form.run body = .ok a
    · obtain ⟨_ | a, ha⟩ := hrun
      · refine ⟨.api (.badRequest fallback), run_andThen_ok (hform.passes _ ha), ?_⟩
        simp [ApiError.status]
      · exact absurd ha (hnot a)
    · exact (hform.refuses (not_exists.mp hrun)).andThen

theorem decides_ensureSelf (caller : Caller) (id : String) :
    (User.ensureSelf caller id).Decides fun _ => id = caller.userId := by
  unfold User.ensureSelf
  constructor
  · intro _ hid
    rw [if_pos hid]
    rfl
  · intro hnot
    rw [if_neg (hnot ())]
    exact ⟨.api (.forbidden "Unauthorized"), rfl, by simp [ApiError.status]⟩

theorem decides_companyFilter (query : Option String) :
    Decides (ExceptT.mk (pure (Checklist.companyFilter query)))
      fun company => Checklist.companyFilter query = .ok company := by
  apply decides_of_run_eq rfl
  intro refusal h
  unfold Checklist.companyFilter at h
  split at h
  · cases h
  · cases h
  · cases h
    simp

end Handler

/-- A form in parts, read at a boundary. -/
def Visit.Receives (v : Visit) (boundary : String) (sent : SentForm) : Prop :=
  v.request.body.size ≤ v.bodyLimit ∧
    ∃ parts, Multipart.parts boundary v.request.body.data.toList = .ok parts ∧ sent = .ofParts parts

namespace Handler

theorem decides_sentForm (v : Visit) (boundary : String) :
    (v.sentForm boundary).Decides (v.Receives boundary) := by
  have hbad : ∀ message, (Refusal.api (.badRequest message)).BlamesClient := by
    intro message
    simp [ApiError.status]
  unfold Visit.sentForm Visit.Receives
  by_cases hsize : v.bodyLimit < v.request.body.size
  · simp only [if_pos hsize]
    constructor
    · rintro sent ⟨hle, -⟩
      omega
    · intro _
      exact ⟨_, rfl, hbad _⟩
  · simp only [if_neg hsize]
    cases hparts : Multipart.parts boundary v.request.body.data.toList with
    | error err =>
      constructor
      · rintro sent ⟨-, parts, h, -⟩
        cases h
      · intro _
        exact ⟨_, rfl, hbad _⟩
    | ok parts =>
      constructor
      · rintro sent ⟨-, parts', h, rfl⟩
        cases h
        rfl
      · intro hnot
        exact absurd ⟨by omega, parts, rfl, rfl⟩ (hnot (.ofParts parts))

theorem opens_checkOnly {β : Type} {user : Option String} {P : Prop} {form : Form Unit}
    {checks : List Check} (htests : form.Tests checks) {body : Value} {rest : Handler β}
    (hrest : rest.Opens user P) :
    (checkOnly form body >>= fun _ => rest).Opens user (Passes checks body ∧ P) := by
  have hopens := (decides_checkOnly htests body).andThen fun _ _ => hrest
  exact hopens.congr (by simp)

theorem opens_check {β : Type} {user : Option String} {form : Form (Option α)} {checks : List Check}
    (htests : form.Tests checks) (hcompletes : form.Completes checks) {fallback : String} {body : Value}
    {rest : α → Handler β} (hrest : ∀ a, (rest a).Opens user True) :
    (check form fallback body >>= rest).Opens user (Passes checks body) := by
  have hopens := (decides_check form fallback body).andThen fun a _ => hrest a
  exact hopens.congr (by simp [Form.exists_some_iff htests hcompletes])

theorem opens_ensureSelf {β : Type} {user : Option String} {P : Prop} {caller : Caller} {id : String}
    {rest : Handler β} (hrest : id = caller.userId → rest.Opens user P) :
    (User.ensureSelf caller id >>= fun _ => rest).Opens user (id = caller.userId ∧ P) := by
  have hopens := (decides_ensureSelf caller id).andThen fun _ hid => hrest hid
  exact hopens.congr (by simp)

/-! ## Calls -/

variable {β γ : Type} {user : Option String}

theorem opens_rows (call : Call) : (service call.rows).Opens call.user? True := by
  constructor
  · intro _
    exact ⟨call, rfl, Task.sameScripts_bind fun x => ⟨_, rfl⟩⟩
  · intro hnot
    exact absurd trivial hnot

/-- A service whose result is made into the rows of a call. -/
theorem opens_service (call : Call) {s : Service α} {g : α → List Record}
    (hrows : call.rows = do return g (← s)) : (service s).Opens call.user? True := by
  constructor
  · intro _
    refine ⟨call, rfl, ?_⟩
    have hservice : Task.SameScripts (service s).run s.run := Task.sameScripts_bind fun x => ⟨_, rfl⟩
    have hcall : Task.SameScripts call.rows.run s.run := by
      rw [hrows]
      exact Task.sameScripts_andThen fun a => ⟨_, rfl⟩
    exact hservice.trans hcall.symm
  · intro hnot
    exact absurd trivial hnot

theorem opens_answered (call : Call) {s : Service α} {g : α → List Record} {f : α → γ}
    (hrows : call.rows = do return g (← s)) :
    (do return f (← service s) : Handler γ).Opens call.user? True :=
  (opens_service call hrows).answer fun _ => ⟨_, rfl⟩

theorem opens_checked (call : Call) {s : Service α} {g : α → List Record} {f : α → γ} {form : Form Unit}
    {checks : List Check} {body : Value} (htests : form.Tests checks)
    (hrows : call.rows = do return g (← s)) :
    (do checkOnly form body; return f (← service s) : Handler γ).Opens call.user? (Passes checks body) :=
  (opens_checkOnly htests (opens_answered call hrows)).congr (by simp)

theorem opens_own (call : Call) {caller : Caller} {id : String} {s : Service α} {g : α → List Record}
    {f : α → γ} (hrows : id = caller.userId → call.rows = do return g (← s)) :
    (do User.ensureSelf caller id; return f (← service s) : Handler γ).Opens call.user?
      (id = caller.userId) :=
  (opens_ensureSelf fun hid => opens_answered call (hrows hid)).congr (by simp)

theorem opens_listed (call : Call) {f : List Record → γ} :
    (do return f (← service call.rows) : Handler γ).Opens call.user? True :=
  (opens_rows call).answer fun _ => ⟨_, rfl⟩

end Handler
end JobTrail
