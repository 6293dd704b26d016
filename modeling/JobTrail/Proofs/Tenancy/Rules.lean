import JobTrail.Proofs.Sql.Updates
import JobTrail.Proofs.Tenancy.Guarded

/-!
# Rules for the steps of services

One rule for each kind of step that the services are made of: a statement that asks for the owner, a new
row, a patch that is compiled, and statements that touch no row with an owner. Each says what the rows
that come back show of the caller's rows.
-/

namespace JobTrail.Tenancy

open Sql Storage

variable {e : Engine} {ρ : Registry} {user sql : String} {q : Query} {params : List Value}

/-! ## What rows show -/

theorem Seen.belongs {row : Record} (h : Seen ρ user q params row) (hshows : q.shows "user_id" = true) :
    Belongs user row := by
  obtain ⟨r, hmet, hcolumns⟩ := h
  rw [Belongs, hcolumns "user_id" List.mem_cons_self hshows]
  exact hmet.belongs

def OwnsId (ρ : Registry) (user : String) (v : Value) : Prop :=
  ∃ owner, castUuid (.text user) = .ok owner ∧ ρ.Has owner v

theorem OwnsId.has {v owner : Value} (h : OwnsId ρ user v) (howner : castUuid (.text user) = .ok owner) :
    ρ.Has owner v := by
  obtain ⟨o, ho, hhas⟩ := h
  cases ho.symm.trans howner
  exact hhas

/-- The id that a query asked for is the user's, once a row has come back. -/
theorem Seen.owns_parameter {row : Record} (h : Seen ρ user q params row) (ht : q.table ∈ tables)
    {place : Nat} (hid : idCondition place ∈ q.conditions) {v : Value} (hparam : params[place]? = some v) :
    OwnsId ρ user v := by
  obtain ⟨r, hmet, -⟩ := h
  refine ⟨_, hmet.belongs, fun id hcast => ?_⟩
  have hreference := id_mem_references ht
  obtain ⟨w, hw, hcolumn⟩ := hmet.ids "id" hreference place hid
  cases hparam.symm.trans hw
  cases hcolumn.symm.trans hcast
  exact hmet.registered "id" hreference

theorem Seen.owns_column {row : Record} (h : Seen ρ user q params row) (ht : q.table ∈ tables)
    (hshows : q.shows "id" = true) : OwnsId ρ user (row.column "id") := by
  obtain ⟨r, hmet, hcolumns⟩ := h
  have hreference := id_mem_references ht
  refine ⟨_, hmet.belongs, fun id hcast => ?_⟩
  rw [hcolumns "id" (List.mem_cons_of_mem _ hreference) hshows] at hcast
  cases (hmet.canonical "id" hreference).symm.trans hcast
  exact hmet.registered "id" hreference

/-! ## Statements of one user -/

theorem sound_of_keeps (hread : read? sql = some q)
    (h : ∀ ρ' s rows db', ρ.Grows ρ' → Consistent ρ' s → q.run e params s.db = .ok (rows, db') →
      Keeps ρ' user q params s rows db') :
    Sound e (some user) (fun rows ρ' => ∀ row ∈ rows, Seen ρ' user q params row)
      (Service.execute sql params) ρ := by
  refine sound_execute hread fun ρ' s rows db' hgrows hs hrun => ?_
  have hkeeps := h ρ' s rows db' hgrows hs hrun
  refine ⟨?_, hkeeps.consistent, hkeeps.seen⟩
  rintro _ ⟨⟩
  exact ⟨hkeeps.isolated, hkeeps.drawn⟩

theorem sound_scoped (hread : read? sql = some q) {place : Nat} (hq : isScoped place q = true)
    (hparam : params[place]? = some (.text user)) :
    Sound e (some user) (fun rows ρ' => ∀ row ∈ rows, Seen ρ' user q params row)
      (Service.execute sql params) ρ :=
  sound_of_keeps hread fun _ _ _ _ _ hs hrun => keeps_of_isScoped hs hq hparam hrun

theorem sound_orMissing {α : Type} {caller : Option String} (found : Option α) (message : String) :
    Sound e caller (fun _ _ => True) (Service.orMissing found message) ρ := by
  cases found with
  | none => exact sound_throw _
  | some a => exact sound_pure trivial

theorem sound_first {caller : Option String} {P : Record → Registry → Prop} {rows : List Record}
    (h : ∀ row ∈ rows, P row ρ) (missing : String) :
    Sound e caller P (Service.first rows missing) ρ := by
  cases rows with
  | nil => exact sound_throw _
  | cons row rest => exact sound_pure (h row List.mem_cons_self)

theorem sound_owned_of_read? (hread : read? sql = some q) (hq : isScoped 1 q = true)
    (id missing : String) :
    Sound e (some user) (fun row ρ' => Seen ρ' user q [.text id, .text user] row)
      (Service.owned sql id user missing) ρ := by
  unfold Service.owned
  split
  · exact (sound_scoped hread hq rfl).bind fun rows ρ' _ hrows => sound_first hrows missing
  · exact sound_throw _

def inserts (table : String) (places : List (String × Nat)) : Query → Bool
  | .insert t columns values false (some .all) => t = table &&
      places.all fun p => (columns.zip values).lookup p.1 = some (.parameter p.2 (some "uuid"))
  | _ => false

def isOfAccount (place : Nat) : Query → Bool
  | .update t assignments conditions none =>
    t = "users" && conditions = [idCondition place] && "id" ∉ assignments.map (·.1)
  | _ => false

theorem sound_neutral (hread : read? sql = some q) (hq : isNeutral q = true) (params : List Value) :
    Sound e none (fun _ _ => True) (Service.execute sql params) ρ :=
  sound_execute hread fun _ _ _ _ _ hs hrun =>
    ⟨fun _ h => (nomatch h), consistent_of_isNeutral hs hq hrun, trivial⟩

section Texts

variable {cs : List Char} (htext : Spells sql cs)
include htext

theorem sound_list (place : Nat)
    (hq : spellsQuery (fun q => isScoped place q && q.shows "user_id") cs = true)
    (hparam : params[place]? = some (.text user)) :
    Sound e (some user) (fun rows _ => ∀ row ∈ rows, Belongs user row) (Service.execute sql params) ρ := by
  obtain ⟨q, hread, hq⟩ := htext.exists_read? hq
  obtain ⟨hscoped, hshows⟩ := Bool.and_eq_true_iff.mp hq
  exact (sound_scoped hread hscoped hparam).imp fun _ _ _ hrows row hrow => (hrows row hrow).belongs hshows

theorem sound_ids (place : Nat) (hq : spellsQuery (fun q => isScoped place q && q.shows "id") cs = true)
    (hparam : params[place]? = some (.text user)) :
    Sound e (some user) (fun rows ρ' => ∀ row ∈ rows, OwnsId ρ' user (row.column "id"))
      (Service.execute sql params) ρ := by
  obtain ⟨q, hread, hq⟩ := htext.exists_read? hq
  obtain ⟨hscoped, hshows⟩ := Bool.and_eq_true_iff.mp hq
  exact (sound_scoped hread hscoped hparam).imp fun _ _ _ hrows row hrow =>
    (hrows row hrow).owns_column (table_mem_of_isScoped hscoped) hshows

theorem sound_asked (place : Nat) (hq : spellsQuery (isScoped place) cs = true)
    (hparam : params[place]? = some (.text user)) :
    Sound e (some user) (fun _ _ => True) (Service.execute sql params) ρ := by
  obtain ⟨q, hread, hscoped⟩ := htext.exists_read? hq
  exact (sound_scoped hread hscoped hparam).imp fun _ _ _ _ => trivial

theorem sound_find (hq : spellsQuery (fun q => isScoped 1 q && q.shows "user_id") cs = true)
    (id missing : String) :
    Sound e (some user) (fun row _ => Belongs user row) (Service.owned sql id user missing) ρ := by
  obtain ⟨q, hread, hq⟩ := htext.exists_read? hq
  obtain ⟨hscoped, hshows⟩ := Bool.and_eq_true_iff.mp hq
  exact (sound_owned_of_read? hread hscoped id missing).imp fun _ _ _ hrow => hrow.belongs hshows

theorem sound_find_id (hq : spellsQuery (fun q => isScoped 1 q && idCondition 0 ∈ q.conditions) cs = true)
    (id missing : String) :
    Sound e (some user) (fun _ ρ' => OwnsId ρ' user (.text id))
      (Service.owned sql id user missing) ρ := by
  obtain ⟨q, hread, hq⟩ := htext.exists_read? hq
  obtain ⟨hscoped, hid⟩ := Bool.and_eq_true_iff.mp hq
  exact (sound_owned_of_read? hread hscoped id missing).imp fun _ _ _ hrow =>
    hrow.owns_parameter (table_mem_of_isScoped hscoped) (of_decide_eq_true hid) rfl

theorem sound_owned (hq : spellsQuery (isScoped 1) cs = true) (id missing : String) :
    Sound e (some user) (fun _ _ => True) (Service.owned sql id user missing) ρ := by
  obtain ⟨q, hread, hscoped⟩ := htext.exists_read? hq
  exact (sound_owned_of_read? hread hscoped id missing).imp fun _ _ _ _ => trivial

theorem sound_insert (table : String) (places : List (String × Nat)) (place : Nat)
    (hq : spellsQuery (inserts table places) cs = true) (ht : table ∈ tables)
    (howner : ("user_id", place) ∈ places) (hparam : params[place]? = some (.text user))
    (hids : ∀ c ∈ references table, ∃ k v, (c, k) ∈ places ∧ params[k]? = some v ∧
      ∀ owner, castUuid (.text user) = .ok owner → ρ.Has owner v) (missing : String) :
    Sound e (some user) (fun row _ => Belongs user row)
      (do Service.first (← Service.execute sql params) missing) ρ := by
  obtain ⟨q, hread, hq⟩ := htext.exists_read? hq
  obtain ⟨columns, values, rfl, hplaces⟩ : ∃ columns values,
      q = .insert table columns values false (some .all) ∧
        ∀ p ∈ places, (columns.zip values).lookup p.1 = some (.parameter p.2 (some "uuid")) := by
    unfold inserts at hq
    split at hq
    · obtain ⟨hsame, hall⟩ := Bool.and_eq_true_iff.mp hq
      cases of_decide_eq_true hsame
      exact ⟨_, _, rfl, fun p hp => of_decide_eq_true (List.all_eq_true.mp hall p hp)⟩
    · cases hq
  refine Sound.bind (sound_of_keeps hread fun ρ' s rows db' hgrows hs hrun => ?_)
    fun rows ρ' _ hrows => sound_first (fun row hrow => (hrows row hrow).belongs rfl) missing
  refine keeps_insert hs ht (hplaces _ howner) hparam (fun c hc => ?_) hrun
  obtain ⟨k, v, hplace, hv, hhas⟩ := hids c hc
  exact ⟨k, v, hplaces _ hplace, hv, fun owner ho => (hhas owner ho).mono hgrows⟩

theorem sound_insert_fresh (table : String) (href : references table = ["id"]) (place : Nat)
    (hq : spellsQuery (inserts table [("id", 0), ("user_id", place)]) cs = true) (ht : table ∈ tables)
    {id : Value} (hid : ∀ owner, castUuid (.text user) = .ok owner → ρ.Has owner id)
    (hfirst : params[0]? = some id) (hparam : params[place]? = some (.text user)) (missing : String) :
    Sound e (some user) (fun row _ => Belongs user row)
      (do Service.first (← Service.execute sql params) missing) ρ := by
  refine sound_insert htext table [("id", 0), ("user_id", place)] place hq ht (by simp) hparam ?_ missing
  rw [href]
  exact List.forall_mem_singleton.mpr ⟨0, id, by simp, hfirst, hid⟩

theorem sound_account (place : Nat) (hq : spellsQuery (isOfAccount place) cs = true)
    (hparam : params[place]? = some (.text user)) :
    Sound e (some user) (fun _ _ => True) (Service.execute sql params) ρ := by
  obtain ⟨q, hread, hq⟩ := htext.exists_read? hq
  obtain ⟨assignments, rfl, hassigned⟩ : ∃ assignments,
      q = .update "users" assignments [idCondition place] none ∧ "id" ∉ assignments.map (·.1) := by
    unfold isOfAccount at hq
    split at hq
    · simp only [Bool.and_eq_true, decide_eq_true_eq] at hq
      obtain ⟨⟨rfl, rfl⟩, hassigned⟩ := hq
      exact ⟨_, rfl, hassigned⟩
    · cases hq
  refine sound_execute hread fun ρ' s rows db' _ hs hrun => ⟨?_, ?_, trivial⟩
  · rintro _ ⟨⟩
    refine ⟨isolated_account hassigned hparam hrun, ?_⟩
    obtain ⟨sets, test, -, -, -, rfl⟩ := run_update hrun
    exact fun row hrow => nomatch hrow
  · have hneutral : isNeutral (.update "users" assignments [idCondition place] none) = true :=
      decide_eq_true (by decide : "users" ∉ tables)
    exact consistent_of_isNeutral hs hneutral hrun

end Texts

/-! ## Patches -/

/-- A template for rows with an owner: it asks for the id and the owner, and it assigns neither. -/
structure OwnedTemplate (t : UpdateTemplate) : Prop where
  readable : t.Readable .all
  owned : t.table ∈ tables
  allow : ∀ c ∈ "user_id" :: references t.table, c ∉ t.allow
  scope : t.scope = [⟨"id", some "uuid"⟩, ⟨"user_id", some "uuid"⟩]

variable {t : UpdateTemplate} {id missing : String} {patch : Value}

theorem isScoped_query (h : OwnedTemplate t) {fields : List String}
    (hfields : ∀ field ∈ fields, field ∈ t.allow) :
    isScoped (fields.length + 1) (t.query .all fields) = true := by
  simp only [UpdateTemplate.query, isScoped, Bool.and_eq_true, decide_eq_true_eq, List.all_eq_true]
  refine ⟨⟨h.owned, ?_⟩, ?_⟩
  · simp [UpdateTemplate.conditions, h.scope, Equation.condition, Equation.operand, ownerCondition]
  · intro a ha hc
    obtain ⟨c, hc', rfl⟩ := List.mem_map.mp ha
    obtain ⟨⟨field, i⟩, hmem, rfl⟩ := List.mem_map.mp hc'
    exact h.allow field hc (hfields field (List.fst_mem_of_mem_zipIdx hmem))

/-- The statement of a patch keeps to the caller's rows and answers with one of them. -/
theorem sound_statement (h : OwnedTemplate t) {statement : Statement}
    (hs : t.compile [.text id, .text user] patch = .ok statement) :
    Sound e (some user) (fun row _ => Belongs user row)
      (do Service.first (← Service.execute statement.sql statement.params) missing) ρ := by
  obtain ⟨hread, hparams, hfields⟩ := UpdateTemplate.read?_compile h.readable hs
  have hparam : statement.params[((patchedFields t.allow patch).map (·.1)).length + 1]?
      = some (.text user) := by
    rw [hparams]
    simp
  exact (sound_scoped hread (isScoped_query h hfields) hparam).bind fun rows ρ' _ hrows =>
    sound_first (fun row hrow => (hrows row hrow).belongs rfl) missing

theorem sound_patch (h : OwnedTemplate t) :
    Sound e (some user) (fun row _ => Belongs user row)
      (do
        let statement ← Service.compile t [.text id, .text user] patch
        Service.first (← Service.execute statement.sql statement.params) missing) ρ := by
  unfold Service.compile
  cases hs : t.compile [.text id, .text user] patch with
  | ok statement => exact sound_statement h hs
  | error err => exact sound_throw _

end JobTrail.Tenancy
