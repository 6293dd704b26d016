import JobTrail.Http.Site
import JobTrail.Proofs.Blob.Paths
import JobTrail.Proofs.Gate.Endpoints

/-!
# Admission to the guarded places

A guarded place asks for a token that verifies, for a handler of the method, and for what its handler
wants to see of the request. If anything of it is missing, the request is answered before the world is
asked for anything, and the answer blames the client. If nothing is missing, what the world sees is one
call of a service, made for the user of the token.
-/

namespace JobTrail

open Tenancy

/-! ## Tokens in a header -/

namespace Site

variable {site : Site} {now : Int} {r : HttpRequest} {p : GuardedPlace} {claims : Claims} {caller : Caller}

theorem after?_eq_some_iff {front s rest : String} : after? front s = some rest ↔ s = front ++ rest := by
  unfold after?
  constructor
  · intro h
    obtain ⟨chars, hchars, rfl⟩ := Option.map_eq_some_iff.mp h
    apply String.toList_injective
    rw [BlobPath.stripFront_eq_some_iff.mp hchars]
    simp
  · rintro rfl
    rw [BlobPath.stripFront_eq_some_iff.mpr (String.toList_append ..)]
    simp

theorem bearer?_eq_some_iff {token : String} :
    bearer? r = some token ↔
      ∃ rest, r.plainHeader? "authorization" = some ("Bearer " ++ rest) ∧
        trimBlank rest = token ∧ token ≠ "" := by
  unfold bearer?
  rw [Option.filter_eq_some_iff]
  constructor
  · rintro ⟨htrimmed, hne⟩
    obtain ⟨rest, hrest, rfl⟩ := Option.map_eq_some_iff.mp htrimmed
    obtain ⟨header, hheader, hafter⟩ := Option.bind_eq_some_iff.mp hrest
    obtain rfl := after?_eq_some_iff.mp hafter
    exact ⟨rest, hheader, rfl, by simpa using hne⟩
  · rintro ⟨rest, hheader, rfl, hne⟩
    have hafter : after? "Bearer " ("Bearer " ++ rest) = some rest := after?_eq_some_iff.mpr rfl
    simp [hheader, hafter, hne]

/-- The request shows a token with these claims that verifies under the secret of the site. -/
def Bears (site : Site) (now : Int) (r : HttpRequest) (claims : Claims) : Prop :=
  ∃ rest, r.plainHeader? "authorization" = some ("Bearer " ++ rest) ∧ trimBlank rest ≠ "" ∧
    site.keys.verify now (trimBlank rest) = .ok claims

theorem authenticate_of_bears (h : site.Bears now r claims) :
    site.authenticate now r = .ok ⟨claims.userId, claims.email⟩ := by
  obtain ⟨rest, hheader, hne, hverify⟩ := h
  have hbearer : bearer? r = some (trimBlank rest) := bearer?_eq_some_iff.mpr ⟨rest, hheader, rfl, hne⟩
  simp only [authenticate, hbearer, hverify]

theorem authenticate_unauthorized (h : ¬ ∃ claims, site.Bears now r claims) :
    ∃ message, site.authenticate now r = .error (.unauthorized message) := by
  unfold authenticate
  cases hbearer : bearer? r with
  | none => exact ⟨_, rfl⟩
  | some token =>
    obtain ⟨rest, hheader, rfl, hne⟩ := bearer?_eq_some_iff.mp hbearer
    cases hverify : site.keys.verify? now (trimBlank rest) with
    | none =>
      refine ⟨AuthError.invalidToken.message, ?_⟩
      simp only [TokenKeys.verify, hverify, AuthError.toApi]
    | some claims =>
      have hclaims : site.keys.verify now (trimBlank rest) = .ok claims := by
        simp only [TokenKeys.verify, hverify]
      exact absurd ⟨claims, rest, hheader, hne, hclaims⟩ h

/-! ## Answers keep their status -/

@[simp] theorem status_trim (m : Method) (response : HttpResponse) :
    (trim m response).status = response.status := by
  unfold trim
  split <;> rfl

@[simp] theorem status_setHeader (response : HttpResponse) (name value : String) :
    (response.setHeader name value).status = response.status := rfl

@[simp] theorem status_shared (response : HttpResponse) :
    (site.shared r (hardened response)).status = response.status := rfl

def delivered (site : Site) (r : HttpRequest) (result : Except Refusal HttpResponse) : HttpResponse :=
  site.shared r (hardened (trim r.method (match result with
    | .ok response => response
    | .error refusal => refusal.response)))

theorem status_delivered_error (refusal : Refusal) :
    (site.delivered r (.error refusal)).status = refusal.response.status := by
  simp [delivered]

theorem status_delivered_ok (reply : Reply) :
    (site.delivered r (.ok (.ofReply reply))).status = reply.status := by
  simp [delivered, HttpResponse.ofReply, HttpResponse.json]

theorem body_delivered_error (hmethod : r.method = .post) (refusal : Refusal) :
    (site.delivered r (.error refusal)).body = refusal.response.body := by
  simp [delivered, trim, hmethod, shared, hardened, HttpResponse.setHeader]

theorem body_delivered_ok (hmethod : r.method = .post) (response : HttpResponse) :
    (site.delivered r (.ok response)).body = response.body := by
  simp [delivered, trim, hmethod, shared, hardened, HttpResponse.setHeader]

/-! ## Requests at an open place -/

/-- What is posted to an open place is answered by its endpoint. -/
theorem respond_posted {place : OpenPlace} {endpoint : Visit → Handler Reply}
    (hplace : Place.ofPath? r.path = some (.unguarded place)) (hmethod : r.method = .post)
    (hhandler : place.handler? .post = some fun v => return .ofReply (← endpoint v)) :
    site.respond now r = (endpoint (site.visit now r)).run >>= fun x =>
      pure (site.delivered r (x.map .ofReply)) := by
  have hserved : place.handler? (servedMethod r.method) = some fun v => return .ofReply (← endpoint v) := by
    rw [hmethod]
    exact hhandler
  have hoptions : r.method ≠ .options := by
    rw [hmethod]
    simp
  have hanswer : (do return HttpResponse.ofReply (← endpoint (site.visit now r)) : Handler _).run =
      (endpoint (site.visit now r)).run >>= fun x => pure (x.map .ofReply) := by
    refine congrArg (Task.bind (endpoint (site.visit now r)).run) (funext fun x => ?_)
    cases x <;> rfl
  simp only [respond, hplace, if_neg hoptions, atPlace, hserved, finish, hanswer, bind_assoc, pure_bind]
  apply bind_congr
  intro x
  cases x <;> rfl

/-! ## Requests at a guarded place -/

theorem respond_guarded (hplace : Place.ofPath? r.path = some (.guarded p))
    (hmethod : r.method ≠ .options) :
    site.respond now r = do return site.shared r (hardened (← site.atPlace now r (.guarded p))) := by
  simp only [respond, hplace, if_neg hmethod]

theorem guard_unauthorized (next : Caller → Handler HttpResponse)
    (h : ¬ ∃ claims, site.Bears now r claims) :
    ∃ response, site.guard now r next = .done response ∧ response.status = 401 := by
  obtain ⟨message, hmessage⟩ := authenticate_unauthorized h
  unfold guard
  rw [hmessage]
  exact ⟨_, rfl, rfl⟩

theorem guard_of_bears {next : Caller → Handler HttpResponse} (h : site.Bears now r claims) :
    site.guard now r next = finish (next ⟨claims.userId, claims.email⟩) := by
  unfold guard
  rw [authenticate_of_bears h]

variable {h : GuardedPlace.Guarded}

theorem method_ne_options (hhandler : p.handler? (servedMethod r.method) = some h) :
    r.method ≠ .options := by
  intro hm
  have hnone : p.handler? (servedMethod .options) = none := by cases p <;> rfl
  rw [hm, hnone] at hhandler
  cases hhandler

theorem respond_of_bears (hplace : Place.ofPath? r.path = some (.guarded p))
    (hhandler : p.handler? (servedMethod r.method) = some h) (hbears : site.Bears now r claims) :
    site.respond now r =
      (h ⟨claims.userId, claims.email⟩ (site.visit now r)).run >>= fun x => pure (site.delivered r x) := by
  rw [respond_guarded hplace (method_ne_options hhandler)]
  simp only [atPlace, hhandler, guard_of_bears hbears, finish, bind_assoc, pure_bind]
  apply bind_congr
  rintro (refusal | response) <;> rfl

theorem respond_without_token (hplace : Place.ofPath? r.path = some (.guarded p))
    (hmethod : r.method ≠ .options) (hbears : ¬ ∃ claims, site.Bears now r claims) :
    ∃ response, site.respond now r = .done response ∧ response.status = 401 := by
  rw [respond_guarded hplace hmethod]
  simp only [atPlace]
  cases hhandler : p.handler? (servedMethod r.method) with
  | some h =>
    obtain ⟨response, hguard, hstatus⟩ :=
      guard_unauthorized (fun caller => h caller (site.visit now r)) hbears
    simp only [hguard]
    exact ⟨_, rfl, by simpa using hstatus⟩
  | none =>
    obtain ⟨response, hguard, hstatus⟩ := guard_unauthorized (fun _ => pure methodNotAllowed) hbears
    simp only [hguard]
    exact ⟨_, rfl, by simpa using hstatus⟩

theorem respond_unhandled (hplace : Place.ofPath? r.path = some (.guarded p))
    (hmethod : r.method ≠ .options) (hbears : site.Bears now r claims)
    (hhandler : p.handler? (servedMethod r.method) = none) :
    ∃ response, site.respond now r = .done response ∧ response.status = 405 := by
  rw [respond_guarded hplace hmethod]
  simp only [atPlace, hhandler, guard_of_bears hbears]
  exact ⟨_, rfl, rfl⟩

/-! ## Gates -/

/-- Everything that has to hold of a request for a guarded place before it gets to storage. -/
structure Admission (site : Site) (now : Int) (r : HttpRequest) (p : GuardedPlace) (claims : Claims) :
    Prop where
  token : site.Bears now r claims
  handled : (p.handler? (servedMethod r.method)).isSome
  admits : p.Admits (servedMethod r.method) ⟨claims.userId, claims.email⟩ (site.visit now r)

theorem Admission.calls (hplace : Place.ofPath? r.path = some (.guarded p))
    (hadmission : site.Admission now r p claims) :
    ∃ call : Call, call.user? = p.owner? claims.userId ∧
      Task.SameScripts (site.respond now r) call.rows.run := by
  obtain ⟨h, hhandler⟩ := Option.isSome_iff_exists.mp hadmission.handled
  have hopens := GuardedPlace.opens_handler ⟨claims.userId, claims.email⟩ (site.visit now r) hhandler
  obtain ⟨call, huser, hmakes⟩ := hopens.makes hadmission.admits
  refine ⟨call, huser, ?_⟩
  rw [respond_of_bears hplace hhandler hadmission.token]
  have hanswer := Task.sameScripts_bind (f := fun x => pure (site.delivered r x))
    (t := (h ⟨claims.userId, claims.email⟩ (site.visit now r)).run) fun x => ⟨_, rfl⟩
  exact hanswer.trans hmakes

theorem refused_of_no_admission (hplace : Place.ofPath? r.path = some (.guarded p))
    (hmethod : r.method ≠ .options) (hnone : ¬ ∃ claims, site.Admission now r p claims) :
    ∃ response, site.respond now r = .done response ∧ 400 ≤ response.status ∧ response.status < 500 := by
  by_cases hbears : ∃ claims, site.Bears now r claims
  · obtain ⟨claims, hbears⟩ := hbears
    cases hhandler : p.handler? (servedMethod r.method) with
    | none =>
      obtain ⟨response, hrespond, hstatus⟩ := respond_unhandled hplace hmethod hbears hhandler
      exact ⟨response, hrespond, by omega, by omega⟩
    | some h =>
      have hopens := GuardedPlace.opens_handler ⟨claims.userId, claims.email⟩ (site.visit now r) hhandler
      have hnot : ¬ p.Admits (servedMethod r.method) ⟨claims.userId, claims.email⟩ (site.visit now r) :=
        fun hadmits => hnone ⟨claims, hbears, by simp [hhandler], hadmits⟩
      obtain ⟨refusal, hrun, hclient⟩ := hopens.refuses hnot
      refine ⟨site.delivered r (.error refusal), ?_, ?_⟩
      · rw [respond_of_bears hplace hhandler hbears, hrun]
        rfl
      · rw [status_delivered_error]
        exact hclient
  · obtain ⟨response, hrespond, hstatus⟩ := respond_without_token hplace hmethod hbears
    exact ⟨response, hrespond, by omega, by omega⟩

theorem respond_options (site : Site) (now : Int) (hmethod : r.method = .options) :
    ∃ response, site.respond now r = .done response := by
  simp only [respond, if_pos hmethod]
  exact ⟨_, rfl⟩

end Site

/-! ## Storage behind the gates -/

/-- Statements, and whatever is asked about a stored file. -/
def Effect.TouchesStorage : Effect → Prop
  | execute _ | putBlob .. | getBlob _ | locateBlob _ | lookUp _ => True
  | freshId | freshSalt => False

/-- A request for a guarded place touches storage only when it is admitted, and then all that is asked of
the world is one call of a service, made for the user of the token. Without an admission nothing is
asked for, and the answer blames the client. -/
theorem Site.storage_behind_gates (site : Site) (now : Int) (r : HttpRequest) (p : GuardedPlace)
    (hplace : Place.ofPath? r.path = some (.guarded p)) :
    (∀ script response, (site.respond now r).Plays script response →
      (∃ x ∈ script, x.effect.TouchesStorage) →
        ∃ claims, site.Admission now r p claims ∧
          ∃ (call : Call) (rows : Except ServiceError (List Record)),
            call.user? = p.owner? claims.userId ∧ call.rows.run.Plays script rows) ∧
    ((¬ ∃ claims, site.Admission now r p claims) → ∃ response, site.respond now r = .done response ∧
      (r.method ≠ .options → 400 ≤ response.status ∧ response.status < 500)) ∧
    ∀ claims, site.Admission now r p claims → ∃ call : Call, call.user? = p.owner? claims.userId ∧
      Task.SameScripts (site.respond now r) call.rows.run := by
  have hrefused : (¬ ∃ claims, site.Admission now r p claims) →
      ∃ response, site.respond now r = .done response ∧
        (r.method ≠ .options → 400 ≤ response.status ∧ response.status < 500) := by
    intro hnone
    by_cases hmethod : r.method = .options
    · obtain ⟨response, hrespond⟩ := respond_options site now hmethod
      exact ⟨response, hrespond, fun hne => absurd hmethod hne⟩
    · obtain ⟨response, hrespond, hstatus⟩ := refused_of_no_admission hplace hmethod hnone
      exact ⟨response, hrespond, fun _ => hstatus⟩
  refine ⟨?_, hrefused, fun claims hadmission => hadmission.calls hplace⟩
  intro script response hplays ⟨x, hx, _⟩
  by_cases hadmitted : ∃ claims, site.Admission now r p claims
  · obtain ⟨claims, hadmission⟩ := hadmitted
    obtain ⟨call, huser, hscripts⟩ := hadmission.calls hplace
    obtain ⟨rows, hrows⟩ := (hscripts script).mp ⟨response, hplays⟩
    exact ⟨claims, hadmission, call, rows, huser, hrows⟩
  · obtain ⟨response', hrespond, -⟩ := hrefused hadmitted
    rw [hrespond] at hplays
    obtain ⟨rfl, -⟩ := Task.plays_done_iff.mp hplays
    cases hx

/-- Nothing but blanks behind the word is no token. -/
theorem Site.storage_behind_gates_blank_token :
    let site : Site := ⟨⟨"secret", 3600, by decide⟩, 1024, .every, "/uploads"⟩
    let r : HttpRequest := ⟨.delete, "/api/applications/7", [("authorization", "Bearer  ")], .empty⟩
    Place.ofPath? r.path = some (.guarded (.application "7")) ∧
      ∃ response, site.respond 0 r = .done response ∧ 400 ≤ response.status ∧ response.status < 500 := by
  intro site r
  have hplace : Place.ofPath? r.path = some (.guarded (.application "7")) := by decide
  have hnone : ¬ ∃ claims, site.Admission 0 r (.application "7") claims := by
    rintro ⟨claims, ⟨rest, hheader, hne, -⟩, -⟩
    have hbearer : bearer? r = none := by decide
    rw [bearer?_eq_some_iff.mpr ⟨rest, hheader, rfl, hne⟩] at hbearer
    cases hbearer
  obtain ⟨response, hrespond, hstatus⟩ :=
    (storage_behind_gates site 0 r (.application "7") hplace).2.1 hnone
  exact ⟨hplace, response, hrespond, hstatus (by decide)⟩

end JobTrail
