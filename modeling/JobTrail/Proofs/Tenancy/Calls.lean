import JobTrail.Application
import JobTrail.Checklist
import JobTrail.Company
import JobTrail.Proofs.Tenancy.Rules
import JobTrail.Resume.Tailored
import JobTrail.User

/-!
# Calls of services

Every operation of every service, with the caller it is made for. Operations on applications, checklist
items and resumes are made for a user and keep to that user's rows; accounts and companies are looked
after without one. What a call returns are the rows that it hands to its caller.
-/

set_option maxRecDepth 8192

namespace JobTrail.Tenancy

open Sql Storage

/-! ## Operations -/

inductive ApplicationCall where
  | list
  | find (id : String)
  | create (draft : Application.Draft)
  | update (id : String) (patch : Value)
  | delete (id : String)

inductive ChecklistCall where
  | list (company : Option String)
  | find (id : String)
  | post (draft : Checklist.Draft)
  | update (id : String) (patch : Value)
  | delete (id : String)

inductive ResumeCall where
  | list
  | find (id : String)
  | create (draft : Resume.Draft)
  | upload (name fileName : String) (bytes : ByteArray) (primary : Bool)
  | update (id : String) (patch : Value)
  | delete (id : String)
  | download (id : String)

inductive TailoredCall where
  | list
  | find (id : String)
  | create (draft : Tailored.Draft)
  | update (id : String) (change : Tailored.Change)
  | delete (id : String)
  | download (id : String)

inductive UserCall where
  | emailTaken (email : String)
  | create (draft : User.Draft)
  | credentials (email : String)
  | find (id : String)
  | update (id : String) (patch : Value)
  | replaceTargets (id : String) (targets : User.Targets)
  | stats (id : String)

inductive CompanyCall where
  | list
  | find (id : String)
  | create (draft : Company.Draft)

inductive Call where
  | applications (user : String) (c : ApplicationCall)
  | checklist (user : String) (c : ChecklistCall)
  | resumes (user : String) (c : ResumeCall)
  | tailored (user : String) (c : TailoredCall)
  | users (c : UserCall)
  | companies (c : CompanyCall)

/-! ## The rows that calls return -/

def ApplicationCall.rows (user : String) : ApplicationCall → Service (List Record)
  | list => Application.list user
  | find id => return [← Application.find id user]
  | create draft => return [← Application.create user draft]
  | update id patch => return [← Application.update id user patch]
  | delete id => do
    Application.delete id user
    return []

def postedRow : Checklist.Posted → Record
  | .created row => row
  | .updated row => row

def ChecklistCall.rows (user : String) : ChecklistCall → Service (List Record)
  | list company => Checklist.list user company
  | find id => return [← Checklist.find id user]
  | post draft => return [postedRow (← Checklist.post user draft)]
  | update id patch => return [← Checklist.update id user patch]
  | delete id => do
    Checklist.delete id user
    return []

def ResumeCall.rows (user : String) : ResumeCall → Service (List Record)
  | list => Resume.list user
  | find id => return [← Resume.find id user]
  | create draft => return [← Resume.create user draft]
  | upload name fileName bytes primary => return [← Resume.upload user name fileName bytes primary]
  | update id patch => return [← Resume.update id user patch]
  | delete id => do
    Resume.delete id user
    return []
  | download id => do
    let _ ← Resume.download id user
    return []

def TailoredCall.rows (user : String) : TailoredCall → Service (List Record)
  | list => Tailored.list user
  | find id => return [← Tailored.find id user]
  | create draft => return [← Tailored.create user draft]
  | update id change => return [← Tailored.update id user change]
  | delete id => do
    Tailored.delete id user
    return []
  | download id => do
    let _ ← Tailored.download id user
    return []

def UserCall.rows : UserCall → Service (List Record)
  | emailTaken email => do
    let _ ← User.emailTaken email
    return []
  | create draft => return [← User.create draft]
  | credentials email => return (← User.credentials email).toList
  | find id => return [← User.find id]
  | update id patch => return [← User.update id patch]
  | replaceTargets id targets => do
    User.replaceTargets id targets
    return []
  | stats id => return [← User.stats id]

def CompanyCall.rows : CompanyCall → Service (List Record)
  | list => Company.list
  | find id => return [← Company.find id]
  | create draft => return [← Company.create draft]

namespace Call

/-- Whose call it is, if it is made for one user. -/
def caller : Call → Option String
  | applications user _ => some user
  | checklist user _ => some user
  | resumes user _ => some user
  | tailored user _ => some user
  | users _ => none
  | companies _ => none

def rows : Call → Service (List Record)
  | applications user c => c.rows user
  | checklist user c => c.rows user
  | resumes user c => c.rows user
  | tailored user c => c.rows user
  | users c => c.rows
  | companies c => c.rows

end Call

/-! ## Applications -/

variable {e : Engine} {ρ : Registry} {user : String}

theorem ownedTemplate_application : OwnedTemplate Application.updateTemplate where
  readable := Patchable.readable .application
  owned := by decide
  allow := by decide
  scope := rfl

def Returns (e : Engine) (user : String) (m : Service (List Record)) (ρ : Registry) : Prop :=
  Sound e (some user) (fun rows _ => ∀ row ∈ rows, Belongs user row) m ρ

theorem returns_one {m : Service Record} (h : Sound e (some user) (fun row _ => Belongs user row) m ρ) :
    Returns e user (do return [← m]) ρ :=
  h.bind fun _ _ _ hrow => sound_pure fun _ hmem => List.mem_singleton.mp hmem ▸ hrow

theorem returns_none {α : Type} {m : Service α} (h : Sound e (some user) (fun _ _ => True) m ρ) :
    Returns e user (do
      let _ ← m
      return []) ρ :=
  h.bind fun _ _ _ _ => sound_pure fun _ hmem => nomatch hmem

theorem sound_application_find (id user : String) (ρ : Registry) :
    Sound e (some user) (fun row _ => Belongs user row) (Application.find id user) ρ :=
  sound_find (spells_ofList _) (by decide) id _

theorem sound_application_create (user : String) (draft : Application.Draft) :
    Sound e (some user) (fun row _ => Belongs user row) (Application.create user draft) ρ :=
  (sound_freshId_for user).bind fun _ _ _ hid =>
    sound_insert_fresh
      ((((spells_ofList _).append (spells_ofList _)).append (spells_ofList _)).append (spells_ofList _))
      "applications" (by decide) 1 (by decide) (by decide) hid rfl rfl _

theorem application_returns (c : ApplicationCall) (user : String) : Returns e user (c.rows user) ρ := by
  cases c with
  | list => exact sound_list (spells_ofList _) 0 (by decide) rfl
  | find id => exact returns_one (sound_application_find id user ρ)
  | create draft => exact returns_one (sound_application_create user draft)
  | update id patch =>
    exact returns_one ((sound_application_find id user ρ).bind fun _ _ _ _ =>
      sound_patch ownedTemplate_application)
  | delete id =>
    exact returns_none ((sound_owned (spells_ofList _) (by decide) id _).bind fun _ _ _ _ =>
      sound_pure trivial)

/-! ## Checklist items -/

theorem ownedTemplate_checklist : OwnedTemplate Checklist.updateTemplate where
  readable := Patchable.readable .checklistItem
  owned := by decide
  allow := by decide
  scope := rfl

theorem sound_checklist_find (id user : String) (ρ : Registry) :
    Sound e (some user) (fun row _ => Belongs user row) (Checklist.find id user) ρ :=
  sound_find (spells_ofList _) (by decide) id _

theorem sound_checklist_add (user : String) (draft : Checklist.Draft) (ρ : Registry) :
    Sound e (some user) (fun row _ => Belongs user row) (Checklist.add user draft) ρ :=
  (sound_freshId_for user).bind fun _ _ _ hid =>
    sound_insert_fresh (((spells_ofList _).append (spells_ofList _)).append (spells_ofList _))
      "checklist_items" (by decide) 2 (by decide) (by decide) hid rfl rfl _

/-- The statement asks for the id alone, so it needs the id to be one of the user's. -/
theorem sound_checklist_refresh {id : Value} (hid : OwnsId ρ user id) (draft : Checklist.Draft) :
    Sound e (some user) (fun row _ => Belongs user row) (Checklist.refresh id draft) ρ := by
  obtain ⟨owner, howner, hhas⟩ := hid
  let assignments : List (String × Operand) :=
    [("completed", .parameter 0 (some "boolean")), ("description", .orColumn 1 none "description"),
      ("category", .orColumn 2 none "category")]
  have hread : read? ("UPDATE checklist_items SET completed = $1::boolean, "
      ++ "description = COALESCE($2, description), category = COALESCE($3, category) "
      ++ "WHERE id = $4::uuid RETURNING *")
      = some (.update "checklist_items" assignments [idCondition 3] (some .all)) :=
    (((spells_ofList _).append (spells_ofList _)).append (spells_ofList _)).read? (by decide)
  refine Sound.bind (sound_of_keeps hread fun ρ' s rows db' hgrows hs hrun => ?_)
    fun rows ρ' _ hrows => sound_first (fun row hrow => (hrows row hrow).belongs rfl) _
  exact keeps_update_by_id hs (by decide) (by decide) rfl howner (hhas.mono hgrows) hrun

theorem sound_checklist_post (user : String) (draft : Checklist.Draft) :
    Sound e (some user) (fun posted _ => Belongs user (postedRow posted)) (Checklist.post user draft) ρ := by
  unfold Checklist.post
  split
  · refine (sound_ids ((spells_ofList _).append (spells_ofList _)) 0 (by decide) rfl).bind
      fun rows ρ' _ hrows => ?_
    cases rows with
    | nil => exact (sound_checklist_add user draft ρ').bind fun _ _ _ hrow => sound_pure hrow
    | cons row rest =>
      exact (sound_checklist_refresh (hrows row List.mem_cons_self) draft).bind fun _ _ _ hrow =>
        sound_pure hrow
  · exact sound_throw _

theorem checklist_returns (c : ChecklistCall) (user : String) : Returns e user (c.rows user) ρ := by
  cases c with
  | list company =>
    cases company with
    | none => exact sound_list (spells_ofList _) 0 (by decide) rfl
    | some company =>
      simp only [ChecklistCall.rows, Checklist.list]
      split
      · exact sound_list ((spells_ofList _).append (spells_ofList _)) 0 (by decide) rfl
      · exact sound_pure fun _ hrow => nomatch hrow
  | find id => exact returns_one (sound_checklist_find id user ρ)
  | post draft =>
    exact (sound_checklist_post user draft).bind fun _ _ _ hrow =>
      sound_pure fun _ hmem => List.mem_singleton.mp hmem ▸ hrow
  | update id patch =>
    exact returns_one ((sound_checklist_find id user ρ).bind fun _ _ _ _ =>
      sound_patch ownedTemplate_checklist)
  | delete id =>
    exact returns_none ((sound_owned (spells_ofList _) (by decide) id _).bind fun _ _ _ _ =>
      sound_pure trivial)

/-! ## Resumes -/

theorem ownedTemplate_resume : OwnedTemplate Resume.updateTemplate where
  readable := Patchable.readable .resume
  owned := by decide
  allow := by decide
  scope := rfl

theorem sound_pointProfile (user : String) (fileUri : Value) (ρ : Registry) :
    Sound e (some user) (fun _ _ => True) (Resume.pointProfile user fileUri) ρ :=
  (sound_account (spells_ofList _) 1 (by decide) rfl).bind fun _ _ _ _ => sound_pure trivial

theorem sound_resume_find (id user : String) (ρ : Registry) :
    Sound e (some user) (fun row _ => Belongs user row) (Resume.find id user) ρ :=
  sound_find (spells_ofList _) (by decide) id _

theorem sound_resume_create (user : String) (draft : Resume.Draft) (ρ : Registry) :
    Sound e (some user) (fun row _ => Belongs user row) (Resume.create user draft) ρ := by
  refine sound_whether (fun hrest => ?_) fun ρ' _ => ?_
  · exact (sound_asked (spells_ofList _) 0 (by decide) rfl).bind fun _ ρ' hgrows _ =>
      hrest ρ' hgrows
  · refine (sound_freshId_for user).bind fun id ρ' _ hid => ?_
    rw [← bind_assoc]
    refine (sound_insert_fresh (((spells_ofList _).append (spells_ofList _)).append (spells_ofList _))
      "resumes" (by decide) 1 (by decide) (by decide) hid rfl rfl _).bind fun row ρ' _ hrow => ?_
    refine sound_whether (fun hrest => ?_) fun _ _ => sound_pure hrow
    exact (sound_pointProfile user _ ρ').bind fun _ ρ'' hgrows _ => hrest ρ'' hgrows

theorem sound_resume_update (id user : String) (patch : Value) (ρ : Registry) :
    Sound e (some user) (fun row _ => Belongs user row) (Resume.update id user patch) ρ := by
  refine (sound_owned (spells_ofList _) (by decide) id _).bind fun existing ρ' _ _ => ?_
  unfold Service.compile
  cases hs : Resume.updateTemplate.compile [.text id, .text user] patch with
  | error err => exact sound_throw _
  | ok statement =>
    refine sound_whether (fun hrest => ?_) fun ρ' _ => sound_statement ownedTemplate_resume hs
    refine (sound_asked (spells_ofList _) 0 (by decide) rfl).bind fun _ ρ₁ hgrows _ => ?_
    exact (sound_pointProfile user _ ρ₁).bind fun _ ρ₂ hgrows' _ => hrest ρ₂ (hgrows.trans hgrows')

theorem sound_readFile (path missing : String) (ρ : Registry) :
    Sound e (some user) (fun _ _ => True) (Resume.readFile path missing) ρ :=
  (sound_getBlob path).bind fun found _ _ _ => sound_orMissing found missing

theorem sound_resume_download (id user : String) (ρ : Registry) :
    Sound e (some user) (fun _ _ => True) (Resume.download id user) ρ := by
  refine (sound_owned ((spells_ofList _)) (by decide) id _).bind fun row ρ₁ _ _ => ?_
  refine (sound_orMissing _ _).bind fun uri ρ₂ _ _ => ?_
  refine (sound_locateBlob uri).bind fun found ρ₃ _ _ => ?_
  refine (sound_orMissing found _).bind fun path ρ₄ _ _ => ?_
  exact (sound_readFile path _ ρ₄).bind fun _ _ _ _ => sound_pure trivial

theorem resume_returns (c : ResumeCall) (user : String) : Returns e user (c.rows user) ρ := by
  cases c with
  | list => exact sound_list (spells_ofList _) 0 (by decide) rfl
  | find id => exact returns_one (sound_resume_find id user ρ)
  | create draft => exact returns_one (sound_resume_create user draft ρ)
  | upload name fileName bytes primary =>
    exact returns_one ((sound_putBlob _ bytes).bind fun _ ρ' _ _ => sound_resume_create user _ ρ')
  | update id patch => exact returns_one (sound_resume_update id user patch ρ)
  | delete id =>
    exact returns_none ((sound_owned (spells_ofList _) (by decide) id _).bind fun _ _ _ _ =>
      sound_pure trivial)
  | download id => exact returns_none (sound_resume_download id user ρ)

/-! ## Tailored resumes -/

theorem ownedTemplate_tailored : OwnedTemplate Tailored.updateTemplate where
  readable := ⟨by decide, by decide, by decide, by decide, by decide,
    by decide⟩
  owned := by decide
  allow := by decide
  scope := rfl

/-- The resume that a version is made from is the user's own, as the look at it has shown. -/
theorem sound_tailored_create (user : String) (draft : Tailored.Draft) (ρ : Registry) :
    Sound e (some user) (fun row _ => Belongs user row) (Tailored.create user draft) ρ := by
  refine (sound_find_id (spells_ofList _) (by decide) draft.originalId _).bind
    fun _ ρ₁ _ horiginal => ?_
  refine (sound_freshId_for user).bind fun id ρ₂ hgrows hid => ?_
  refine sound_insert ((((spells_ofList _).append (spells_ofList _)).append (spells_ofList _)).append
    (spells_ofList _)) "tailored_resumes" [("id", 0), ("original_resume_id", 1), ("user_id", 2)] 2
    (by decide) (by decide) (by simp) rfl ?_ _
  intro c hc
  have hcases : c = "id" ∨ c = "original_resume_id" := by simpa [references] using hc
  rcases hcases with rfl | rfl
  · exact ⟨0, id, by simp, rfl, hid⟩
  · refine ⟨1, .text draft.originalId, by simp, rfl, fun owner howner => ?_⟩
    exact (horiginal.has howner).mono hgrows

theorem sound_tailored_check (id user missing : String) (ρ : Registry) :
    Sound e (some user) (fun _ _ => True) (Tailored.check id user missing) ρ :=
  sound_owned (spells_ofList _) (by decide) id missing

theorem sound_tailored_update (id user : String) (change : Tailored.Change) (ρ : Registry) :
    Sound e (some user) (fun row _ => Belongs user row) (Tailored.update id user change) ρ := by
  refine (sound_tailored_check id user _ ρ).bind fun _ ρ₁ _ _ => ?_
  have hstore : Sound e (some user) (fun _ _ => True) (Tailored.storeFile id change.file) ρ₁ := by
    cases change.file with
    | none => exact sound_pure trivial
    | some bytes => exact (sound_putBlob _ bytes).bind fun _ _ _ _ => sound_pure trivial
  refine hstore.bind fun file ρ₂ _ _ => ?_
  simp only
  split
  · exact sound_throw _
  · rename_i statement hs
    exact sound_statement ownedTemplate_tailored hs

theorem tailored_returns (c : TailoredCall) (user : String) : Returns e user (c.rows user) ρ := by
  have hselection : Spells Tailored.selection _ :=
    ((spells_ofList _).append (spells_ofList _)).append (spells_ofList _)
  cases c with
  | list => exact sound_list (hselection.append (spells_ofList _)) 0 (by decide) rfl
  | find id =>
    exact returns_one (sound_find (hselection.append (spells_ofList _)) (by decide) id _)
  | create draft => exact returns_one (sound_tailored_create user draft ρ)
  | update id change => exact returns_one (sound_tailored_update id user change ρ)
  | delete id =>
    exact returns_none ((sound_owned (spells_ofList _) (by decide) id _).bind fun _ _ _ _ =>
      sound_pure trivial)
  | download id =>
    refine returns_none ((sound_tailored_check id user _ ρ).bind fun _ ρ' _ _ => ?_)
    exact (sound_readFile _ _ ρ').bind fun _ _ _ _ => sound_pure trivial

/-! ## Accounts and companies -/

/-- Storage stays consistent; whose rows are met does not matter. -/
def Harmless {α : Type} (e : Engine) (m : Service α) : Prop := ∀ ρ, Sound e none (fun _ _ => True) m ρ

theorem Harmless.bind {α β : Type} {m : Service α} {f : α → Service β} (hm : Harmless e m)
    (hf : ∀ a, Harmless e (f a)) : Harmless e (m >>= f) := fun ρ =>
  (hm ρ).bind fun a ρ' _ _ => hf a ρ'

theorem harmless_pure {α : Type} (a : α) : Harmless e (pure a) := fun _ => sound_pure trivial

theorem harmless_throw {α : Type} (err : ServiceError) : Harmless e (throw err : Service α) := fun _ =>
  sound_throw err

theorem harmless_first (rows : List Record) (missing : String) : Harmless e (Service.first rows missing) :=
  fun _ => sound_orMissing rows.head? missing

theorem harmless_neutral {sql : String} {cs : List Char} (htext : Spells sql cs)
    (hq : spellsQuery isNeutral cs = true) (params : List Value) :
    Harmless e (Service.execute sql params) := by
  obtain ⟨q, hread, hq⟩ := htext.exists_read? hq
  exact fun _ => sound_neutral hread hq params

theorem harmless_freshId : Harmless e Service.freshId := fun _ =>
  (sound_freshId .null).imp fun _ _ _ _ => trivial

theorem user_create_harmless (draft : User.Draft) : Harmless e (User.create draft) := by
  refine harmless_freshId.bind fun id => Harmless.bind (fun ρ => Sound.tryCatch ?_ ?_) fun rows =>
    harmless_first rows _
  · exact harmless_neutral ((((((spells_ofList _).append (spells_ofList _)).append (spells_ofList _)).append
      (spells_ofList _)).append (spells_ofList _)).append (spells_ofList _)) (by decide) _ ρ
  · intro err ρ'
    split
    · exact sound_throw _
    · exact sound_throw _

theorem user_update_harmless (id : String) (patch : Value) : Harmless e (User.update id patch) := by
  unfold User.update Service.compile
  cases hs : User.updateTemplate.compile [.text id] patch with
  | error err => exact harmless_throw _
  | ok statement =>
    obtain ⟨hread, -, -⟩ := UpdateTemplate.read?_compile (Patchable.readable .profile) hs
    have hneutral : ∀ answer fields, isNeutral (User.updateTemplate.query answer fields) = true :=
      fun _ _ => decide_eq_true (by decide : "users" ∉ tables)
    have hsteps : Harmless e (do
        Service.first (← Service.execute statement.sql statement.params) User.missing) :=
      Harmless.bind (fun _ => sound_neutral hread (hneutral _ _) _) fun rows => harmless_first rows _
    exact hsteps

theorem replaceList_harmless (id : String) (values : Option (List String)) :
    ∀ t ∈ [User.companyTargets, User.roleTargets, User.industryTargets, User.locationTargets],
      Harmless e (User.replaceList id t values) := by
  intro t ht
  cases values with
  | none => exact harmless_pure ()
  | some values =>
    simp only [List.mem_cons, List.not_mem_nil, or_false] at ht
    rcases ht with rfl | rfl | rfl | rfl
    all_goals
      refine (harmless_neutral (((spells_ofList _).append (spells_ofList _)).append (spells_ofList _))
        (by decide) _).bind fun _ ρ => sound_forM (fun value ρ' => ?_) values ρ
      exact (harmless_neutral (((((((spells_ofList _).append (spells_ofList _)).append
        (spells_ofList _)).append (spells_ofList _)).append (spells_ofList _)).append
        (spells_ofList _)).append (spells_ofList _)) (by decide) _).bind (fun _ => harmless_pure ()) ρ'

theorem user_find_harmless (id : String) : Harmless e (User.find id) := by
  refine (harmless_neutral (((spells_ofList _).append ((spells_ofList _).append (spells_ofList _))).append
    (spells_ofList _)) (by decide) _).bind fun rows => (harmless_first rows _).bind fun user => ?_
  refine (harmless_neutral ((spells_ofList _).append (spells_ofList _)) (by decide) _).bind fun _ => ?_
  refine (harmless_neutral (spells_ofList _) (by decide) _).bind fun _ => ?_
  refine (harmless_neutral (spells_ofList _) (by decide) _).bind fun _ => ?_
  exact (harmless_neutral (spells_ofList _) (by decide) _).bind fun _ => harmless_pure _

theorem users_harmless (c : UserCall) : Harmless e c.rows := by
  cases c with
  | emailTaken email =>
    refine Harmless.bind ?_ fun _ => harmless_pure _
    exact (harmless_neutral (spells_ofList _) (by decide) _).bind fun _ => harmless_pure _
  | create draft => exact (user_create_harmless draft).bind fun _ => harmless_pure _
  | credentials email =>
    refine Harmless.bind ?_ fun _ => harmless_pure _
    exact (harmless_neutral ((spells_ofList _).append (spells_ofList _)) (by decide) _).bind fun _ =>
      harmless_pure _
  | find id => exact (user_find_harmless id).bind fun _ => harmless_pure _
  | update id patch => exact (user_update_harmless id patch).bind fun _ => harmless_pure _
  | replaceTargets id targets =>
    refine Harmless.bind ?_ fun _ => harmless_pure _
    refine (replaceList_harmless id _ _ (by simp)).bind fun _ => ?_
    refine (replaceList_harmless id _ _ (by simp)).bind fun _ => ?_
    refine (replaceList_harmless id _ _ (by simp)).bind fun _ => ?_
    exact replaceList_harmless id _ _ (by simp)
  | stats id =>
    refine Harmless.bind ?_ fun _ => harmless_pure _
    exact (harmless_neutral (spells_ofList _) (by decide) _).bind fun rows => harmless_first rows _

/-- An item that every user starts from has no owner, and its id goes with that. -/
theorem addItem_harmless (company item : Value) : Harmless e (Company.addItem company item) := by
  intro ρ
  refine (sound_freshId .null).bind fun id ρ' _ hid => ?_
  have hread : read? ("INSERT INTO checklist_items (id, company_id, title, description, category, user_id) "
      ++ "VALUES ($1::uuid, $2::uuid, $3, $4, $5, NULL)")
      = some (.insert "checklist_items" ["id", "company_id", "title", "description", "category", "user_id"]
        [.parameter 0 (some "uuid"), .parameter 1 (some "uuid"), .parameter 2 none, .parameter 3 none,
          .parameter 4 none, .constant .null] false none) :=
    ((spells_ofList _).append (spells_ofList _)).read? (by decide)
  refine Sound.bind (P := fun _ _ => True) (sound_execute hread fun ρ'' s rows db' hgrows hs hrun => ?_)
    fun _ _ _ _ => sound_pure trivial
  have hids : ∀ c ∈ references "checklist_items", c = "id" := by simp [references]
  obtain ⟨row, -, hregistered, rfl, -⟩ := insert_registered ⟨_, rfl, fun f hf => by cases hf; rfl⟩
    (fun c hc => ⟨0, id, by rw [hids c hc]; rfl, rfl, hid.mono hgrows⟩) hrun
  refine ⟨?_, consistent_set hs fun r hr => ?_, trivial⟩
  · intro _ h
    cases h
  · rcases List.mem_append.mp hr with hr | hr
    · exact hs.registered _ r hr
    · exact List.mem_singleton.mp hr ▸ hregistered

theorem addEvent_harmless (company event : Value) : Harmless e (Company.addEvent company event) :=
  harmless_freshId.bind fun _ => (harmless_neutral ((spells_ofList _).append (spells_ofList _))
    (by decide) _).bind fun _ => harmless_pure ()

theorem addCourse_harmless (company course : Value) : Harmless e (Company.addCourse company course) :=
  harmless_freshId.bind fun _ => (harmless_neutral ((spells_ofList _).append (spells_ofList _))
    (by decide) _).bind fun _ => harmless_pure ()

theorem company_create_harmless (draft : Company.Draft) : Harmless e (Company.create draft) := by
  refine (harmless_neutral (spells_ofList _) (by decide) _).bind fun taken ρ => ?_
  refine sound_whether (fun _ => sound_throw _) fun ρ' _ => ?_
  refine Harmless.bind harmless_freshId (fun id => ?_) ρ'
  refine (harmless_neutral (((spells_ofList _).append (spells_ofList _)).append (spells_ofList _))
    (by decide) _).bind fun rows => (harmless_first rows _).bind fun company => ?_
  refine Harmless.bind (fun ρ => sound_forM (fun event => addEvent_harmless _ event) _ ρ) fun _ => ?_
  refine Harmless.bind (fun ρ => sound_forM (fun course => addCourse_harmless _ course) _ ρ) fun _ => ?_
  exact Harmless.bind (fun ρ => sound_forM (fun item => addItem_harmless _ item) _ ρ) fun _ =>
    harmless_pure _

theorem companies_harmless (c : CompanyCall) : Harmless e c.rows := by
  cases c with
  | list => exact harmless_neutral (spells_ofList _) (by decide) _
  | find id =>
    refine Harmless.bind ?_ fun _ => harmless_pure _
    unfold Company.find
    split
    · refine (harmless_neutral (spells_ofList _) (by decide) _).bind fun rows =>
        (harmless_first rows _).bind fun company => ?_
      refine (harmless_neutral (spells_ofList _) (by decide) _).bind fun _ => ?_
      refine (harmless_neutral (spells_ofList _) (by decide) _).bind fun _ => ?_
      exact (harmless_neutral ((spells_ofList _).append (spells_ofList _)) (by decide) _).bind fun _ =>
        harmless_pure _
    · exact harmless_throw _
  | create draft => exact (company_create_harmless draft).bind fun _ => harmless_pure _

/-! ## All calls -/

/-- Whatever runs in between, a call keeps to the rows of its caller and returns rows of its caller. -/
theorem sound_call (call : Call) (ρ : Registry) :
    Sound e call.caller (fun rows _ => ∀ user ∈ call.caller, ∀ row ∈ rows, Belongs user row) call.rows ρ := by
  have howned : ∀ {m : Service (List Record)} {user : String}, Returns e user m ρ →
      Sound e (some user) (fun rows _ => ∀ u ∈ some user, ∀ row ∈ rows, Belongs u row) m ρ := by
    intro m user h
    refine h.imp fun rows _ _ hrows u hu => ?_
    cases hu
    exact hrows
  have hfree : ∀ {m : Service (List Record)}, Harmless e m →
      Sound e none (fun rows _ => ∀ u ∈ (none : Option String), ∀ row ∈ rows, Belongs u row) m ρ :=
    fun h => (h ρ).imp fun _ _ _ _ _ hu => nomatch hu
  cases call with
  | applications user c => exact howned (application_returns c user)
  | checklist user c => exact howned (checklist_returns c user)
  | resumes user c => exact howned (resume_returns c user)
  | tailored user c => exact howned (tailored_returns c user)
  | users c => exact hfree (users_harmless c)
  | companies c => exact hfree (companies_harmless c)

end JobTrail.Tenancy
