import JobTrail.Proofs.Resume.Statements

/-!
# The primary resume

What has to hold of storage so that each user has at most one primary resume and the profile points at
its file, and that the operations on resumes keep it. A patch keeps it as long as it makes a resume
primary only under the wire name of the flag.
-/

namespace JobTrail.Resume

open Sql Storage

variable {e : Engine} {s s' : Storage} {id user : String} {owner target file : Value}

def IsPrimary (owner : Value) (r : Record) : Prop :=
  r.column "user_id" = owner ∧ r.column "is_primary" = .bool true

instance (owner : Value) (r : Record) : Decidable (IsPrimary owner r) :=
  inferInstanceAs (Decidable (_ ∧ _))

/-- Each user has at most one primary resume, and the user's profile points at its file. -/
structure SinglePrimary (db : Database) : Prop where
  single : ∀ owner, ((db.rows "resumes").filter (IsPrimary owner ·)).length ≤ 1
  profile : ∀ owner, ∀ r ∈ db.rows "resumes", IsPrimary owner r → ∀ account ∈ db.rows "users",
    account.column "id" = owner → account.column "resume_uri" = r.column "file_uri"

/-! ## The invariant -/

/-- Nothing but one row can be a user's primary resume, and the profile points at a file. -/
structure Pointed (owner target file : Value) (db : Database) : Prop where
  primary : ∀ r ∈ db.rows "resumes", IsPrimary owner r →
    r.column "id" = target ∧ r.column "file_uri" = file
  profile : ∀ account ∈ db.rows "users", account.column "id" = owner → account.column "resume_uri" = file

def Settled (owner : Value) (db : Database) : Prop :=
  (∀ r ∈ db.rows "resumes", ¬ IsPrimary owner r) ∨ ∃ target file, Pointed owner target file db

structure Ids (s : Storage) : Prop where
  nodup : ((s.db.rows "resumes").map (·.column "id")).Nodup
  issued : ∀ r ∈ s.db.rows "resumes", r.column "id" ∈ s.issued ∧ r.column "id" ≠ .null

structure Kept (s : Storage) : Prop where
  ids : Ids s
  settled : ∀ owner, Settled owner s.db

theorem length_filter_le_one {α β : Type} (key : α → β) (p : α → Prop) [DecidablePred p] {l : List α}
    (hnodup : (l.map key).Nodup) {k : β} (h : ∀ a ∈ l, p a → key a = k) :
    (l.filter (p ·)).length ≤ 1 := by
  induction l with
  | nil => simp
  | cons a rest ih =>
    rw [List.map_cons, List.nodup_cons] at hnodup
    obtain ⟨ha, hrest⟩ := List.forall_mem_cons.mp h
    have htail := ih hnodup.2 hrest
    by_cases hp : p a
    · have hnone : rest.filter (p ·) = [] := by
        rw [List.filter_eq_nil_iff]
        intro b hb hpb
        apply hnodup.1
        rw [ha hp, ← hrest b hb (of_decide_eq_true hpb)]
        exact List.mem_map_of_mem hb
      simp [hp, hnone]
    · simpa [hp] using htail

theorem Kept.singlePrimary (h : Kept s) : SinglePrimary s.db := by
  constructor
  · intro owner
    rcases h.settled owner with hnone | ⟨target, file, hpointed⟩
    · have hempty : (s.db.rows "resumes").filter (IsPrimary owner ·) = [] := by
        rw [List.filter_eq_nil_iff]
        intro r hr hprimary
        exact hnone r hr (of_decide_eq_true hprimary)
      simp [hempty]
    · apply length_filter_le_one (·.column "id") (IsPrimary owner) h.ids.nodup
      intro r hr hprimary
      exact (hpointed.primary r hr hprimary).1
  · intro owner r hr hprimary account haccount hid
    rcases h.settled owner with hnone | ⟨target, file, hpointed⟩
    · exact absurd hprimary (hnone r hr)
    · rw [hpointed.profile account haccount hid, (hpointed.primary r hr hprimary).2]

/-! ## Changes of rows -/

theorem Settled.mono {db db' : Database} (h : Settled owner db)
    (haccounts : db'.rows "users" = db.rows "users")
    (hback : ∀ r' ∈ db'.rows "resumes", IsPrimary owner r' → ∃ r ∈ db.rows "resumes", IsPrimary owner r ∧
      r.column "id" = r'.column "id" ∧ r.column "file_uri" = r'.column "file_uri") :
    Settled owner db' := by
  rcases h with hnone | ⟨target, file, hpointed⟩
  · refine .inl ?_
    intro r' hr' hprimary'
    obtain ⟨r, hr, hprimary, -, -⟩ := hback r' hr' hprimary'
    exact hnone r hr hprimary
  · refine .inr ⟨target, file, ?_, haccounts ▸ hpointed.profile⟩
    intro r' hr' hprimary'
    obtain ⟨r, hr, hprimary, hid, hfile⟩ := hback r' hr' hprimary'
    rw [← hid, ← hfile]
    exact hpointed.primary r hr hprimary

theorem Ids.map (h : Ids s) {g : Record → Record} (hid : ∀ r, (g r).column "id" = r.column "id") :
    Ids (s.set "resumes" ((s.db.rows "resumes").map g)) := by
  have hkeys : ((s.db.rows "resumes").map g).map (·.column "id")
      = (s.db.rows "resumes").map (·.column "id") := by
    rw [List.map_map]
    exact List.map_congr_left fun r _ => hid r
  constructor
  · rw [Storage.rows_set, if_pos rfl, hkeys]
    exact h.nodup
  · intro r' hr'
    rw [Storage.rows_set, if_pos rfl] at hr'
    obtain ⟨r, hr, rfl⟩ := List.mem_map.mp hr'
    rw [hid r]
    exact h.issued r hr

theorem Settled.map {g : Record → Record} (h : Settled owner s.db)
    (hid : ∀ r, (g r).column "id" = r.column "id")
    (hfile : ∀ r, (g r).column "file_uri" = r.column "file_uri")
    (hback : ∀ r ∈ s.db.rows "resumes", IsPrimary owner (g r) → IsPrimary owner r) :
    Settled owner (s.set "resumes" ((s.db.rows "resumes").map g)).db := by
  refine h.mono rfl ?_
  intro r' hr' hprimary
  rw [Storage.rows_set, if_pos rfl] at hr'
  obtain ⟨r, hr, rfl⟩ := List.mem_map.mp hr'
  exact ⟨r, hr, hback r hr hprimary, (hid r).symm, (hfile r).symm⟩

theorem Kept.map (h : Kept s) {g : Record → Record} (hid : ∀ r, (g r).column "id" = r.column "id")
    (hfile : ∀ r, (g r).column "file_uri" = r.column "file_uri")
    (hback : ∀ owner, ∀ r ∈ s.db.rows "resumes", IsPrimary owner (g r) → IsPrimary owner r) :
    Kept (s.set "resumes" ((s.db.rows "resumes").map g)) :=
  ⟨h.ids.map hid, fun owner => (h.settled owner).map hid hfile (hback owner)⟩

theorem Kept.filter (h : Kept s) (p : Record → Bool) :
    Kept (s.set "resumes" ((s.db.rows "resumes").filter p)) := by
  refine ⟨⟨?_, ?_⟩, ?_⟩
  · rw [Storage.rows_set, if_pos rfl]
    exact h.ids.nodup.sublist (List.filter_sublist.map _)
  · intro r hr
    rw [Storage.rows_set, if_pos rfl] at hr
    exact h.ids.issued r (List.mem_of_mem_filter hr)
  · intro owner
    refine (h.settled owner).mono rfl ?_
    intro r hr hprimary
    rw [Storage.rows_set, if_pos rfl] at hr
    exact ⟨r, List.mem_of_mem_filter hr, hprimary, rfl, rfl⟩

theorem Kept.issue (h : Kept s) (new : Value) : Kept { s with issued := new :: s.issued } := by
  refine ⟨⟨h.ids.nodup, ?_⟩, h.settled⟩
  intro r hr
  obtain ⟨hissued, hne⟩ := h.ids.issued r hr
  exact ⟨List.mem_cons_of_mem _ hissued, hne⟩

theorem Kept.with_blobs (h : Kept s) (blobs : BlobStore) : Kept { s with blobs } :=
  ⟨⟨h.ids.nodup, h.ids.issued⟩, h.settled⟩

/-! ## Steps of the operations -/

theorem not_isPrimary_demoted (owner : Value) (r : Record) : ¬ IsPrimary owner (demoted r) := by
  rintro ⟨-, hprimary⟩
  rw [column_demoted] at hprimary
  cases hprimary

theorem Kept.demote (h : Kept s) (p : Record → Prop) [DecidablePred p] :
    Kept (s.set "resumes" ((s.db.rows "resumes").map fun r => if p r then demoted r else r)) := by
  have hkeep : ∀ (c : String), "is_primary" ≠ c → ∀ r : Record,
      (if p r then demoted r else r).column c = r.column c := by
    intro c hc r
    split
    · rw [column_demoted, if_neg hc]
    · rfl
  refine h.map (hkeep "id" (by decide)) (hkeep "file_uri" (by decide)) ?_
  intro owner r _ hprimary
  split at hprimary
  · exact absurd hprimary (not_isPrimary_demoted owner r)
  · exact hprimary

/-- A profile is pointed at the file of the only resume that can be primary. -/
theorem kept_of_point (hids : Ids s) (hothers : ∀ other, other ≠ owner → Settled other s.db)
    (hprimary : ∀ r ∈ s.db.rows "resumes", IsPrimary owner r →
      r.column "id" = target ∧ r.column "file_uri" = file) :
    Kept (s.set "users" ((s.db.rows "users").map fun a =>
        if a.column "id" = owner then a.insert "resume_uri" file else a)) ∧
      Pointed owner target file (s.set "users" ((s.db.rows "users").map fun a =>
        if a.column "id" = owner then a.insert "resume_uri" file else a)).db := by
  have hid : ∀ a : Record,
      (if a.column "id" = owner then a.insert "resume_uri" file else a).column "id" = a.column "id" := by
    intro a
    split
    · rw [Record.column_insert, if_neg (by decide)]
    · rfl
  have hpointed : Pointed owner target file (s.set "users" ((s.db.rows "users").map fun a =>
      if a.column "id" = owner then a.insert "resume_uri" file else a)).db := by
    refine ⟨hprimary, ?_⟩
    intro account haccount howner
    rw [Storage.rows_set, if_pos rfl] at haccount
    obtain ⟨a, -, rfl⟩ := List.mem_map.mp haccount
    rw [hid a] at howner
    rw [if_pos howner, Record.column_insert, if_pos rfl]
  refine ⟨⟨⟨hids.nodup, hids.issued⟩, ?_⟩, hpointed⟩
  intro other
  by_cases hother : other = owner
  · subst hother
    exact .inr ⟨target, file, hpointed⟩
  · rcases hothers other hother with hnone | ⟨target', file', hpointed'⟩
    · exact .inl hnone
    · refine .inr ⟨target', file', hpointed'.primary, ?_⟩
      intro account haccount howner
      rw [Storage.rows_set, if_pos rfl] at haccount
      obtain ⟨a, ha, rfl⟩ := List.mem_map.mp haccount
      rw [hid a] at howner
      have hne : a.column "id" ≠ owner := by
        intro he
        exact hother (howner.symm.trans he)
      rw [if_neg hne]
      exact hpointed'.profile a ha howner

/-! ## Adding a resume -/

theorem Ids.add (h : Ids s) {row : Record} (hnew : ∀ r ∈ s.db.rows "resumes", r.column "id" ≠ row.column "id")
    (hissued : row.column "id" ∈ s.issued) (hne : row.column "id" ≠ .null) :
    Ids (s.set "resumes" (s.db.rows "resumes" ++ [row])) := by
  constructor
  · rw [Storage.rows_set, if_pos rfl, List.map_append, List.nodup_append]
    refine ⟨h.nodup, by simp, ?_⟩
    intro id hid id' hid' he
    obtain ⟨r, hr, rfl⟩ := List.mem_map.mp hid
    obtain rfl : id' = row.column "id" := by simpa using hid'
    exact hnew r hr he
  · intro r hr
    rw [Storage.rows_set, if_pos rfl] at hr
    rcases List.mem_append.mp hr with hr | hr
    · exact h.issued r hr
    · obtain rfl : r = row := by simpa using hr
      exact ⟨hissued, hne⟩

theorem Settled.add (h : Settled owner s.db) {row : Record} (hrow : ¬ IsPrimary owner row) :
    Settled owner (s.set "resumes" (s.db.rows "resumes" ++ [row])).db := by
  refine h.mono rfl ?_
  intro r hr hprimary
  rw [Storage.rows_set, if_pos rfl] at hr
  rcases List.mem_append.mp hr with hr | hr
  · exact ⟨r, hr, hprimary, rfl, rfl⟩
  · obtain rfl : r = row := by simpa using hr
    exact absurd hprimary hrow

section Create

variable {draft : Draft} {x : Except ServiceError Record}

def withResume (e : Engine) (s : Storage) (new owner : Value) (draft : Draft) : Storage :=
  Storage.set { s with issued := new :: s.issued } "resumes"
    (s.db.rows "resumes" ++ [newResume e new owner draft])

theorem runs_new {k : Record → Service Record}
    (hruns : (do
      let given ← Service.freshId
      let rows ← Service.execute
        ("INSERT INTO resumes (id, user_id, name, file_name, file_uri, is_primary) "
         ++ "VALUES ($1::uuid, $2::uuid, $3, $4, $5, $6) "
         ++ "RETURNING *")
        [given, .text user, .text draft.name, .text draft.fileName, .text draft.fileUri, .bool draft.primary]
      let resume ← Service.first rows missing
      k resume : Service Record).run.Runs e s x s') :
    (∃ new, s' = { s with issued := new :: s.issued }) ∨
      ∃ owner new, castUuid (.text user) = .ok owner ∧ new ∉ s.issued ∧ new ≠ .null ∧
        (k (newResume e new owner draft)).run.Runs e (withResume e s new owner draft) x s' := by
  rcases runs_andThen_iff.mp hruns with ⟨given, s₁, hfresh, hruns⟩ | ⟨err, hfresh, rfl⟩
  · obtain ⟨id, new, hnew, hissued, hgiven, rfl⟩ := runs_freshId_iff.mp hfresh
    cases hgiven
    rcases runs_andThen_iff.mp hruns with ⟨rows, s₂, hadd, hruns⟩ | ⟨err, hadd, rfl⟩
    · rcases (runs_add_iff hnew).mp hadd with ⟨owner, howner, hrows, rfl⟩ | ⟨_, _, herr, _⟩
      · cases hrows
        rcases runs_andThen_iff.mp hruns with ⟨resume, s₃, hfirst, hruns⟩ | ⟨err, hfirst, rfl⟩
        · rcases runs_first_iff.mp hfirst with ⟨rfl, ⟨row, hrow, hresume⟩ | ⟨hrows, -⟩⟩
          · cases hrow
            cases hresume
            exact .inr ⟨owner, new, howner, hissued, ne_null_of_castUuid hnew, hruns⟩
          · cases hrows
        · rcases runs_first_iff.mp hfirst with ⟨-, ⟨row, -, hok⟩ | ⟨hrows, -⟩⟩
          · cases hok
          · cases hrows
      · cases herr
    · rcases (runs_add_iff hnew).mp hadd with ⟨_, _, hok, _⟩ | ⟨_, -, -, rfl⟩
      · cases hok
      · exact .inl ⟨new, rfl⟩
  · obtain ⟨_, _, _, _, hok, _⟩ := runs_freshId_iff.mp hfresh
    cases hok

theorem Kept.withResume (h : Kept s) (e : Engine) (owner : Value) (draft : Draft) {new : Value}
    (hissued : new ∉ s.issued) (hne : new ≠ .null) :
    Ids (withResume e s new owner draft) ∧
      ∀ other, other ≠ owner → Settled other (withResume e s new owner draft).db := by
  obtain ⟨hid, howner, -, -⟩ := newResume_columns e new owner draft
  constructor
  · apply (h.issue new).ids.add
    · intro r hr he
      rw [hid] at he
      exact hissued (he ▸ (h.ids.issued r hr).1)
    · rw [hid]
      exact List.mem_cons_self
    · rw [hid]
      exact hne
  · intro other hother
    apply ((h.issue new).settled other).add
    intro hprimary
    exact hother (hprimary.1.symm.trans howner)

/-- The new resume is the primary one: its owner had none, and the profile is pointed at its file. -/
theorem kept_point_new (h : Kept s) (hnone : ∀ r ∈ s.db.rows "resumes", ¬ IsPrimary owner r) {new : Value}
    (hissued : new ∉ s.issued) (hne : new ≠ .null) (howner : castUuid (.text user) = .ok owner)
    {y : Except ServiceError Unit}
    (hpoint : (pointProfile user (.text draft.fileUri)).run.Runs e (withResume e s new owner draft) y s') :
    Kept s' := by
  obtain ⟨-, rfl⟩ := (runs_pointProfile_of_cast howner).mp hpoint
  obtain ⟨hids, hothers⟩ := h.withResume e owner draft hissued hne
  have hprimary : ∀ r ∈ (withResume e s new owner draft).db.rows "resumes", IsPrimary owner r →
      r.column "id" = new ∧ r.column "file_uri" = .text draft.fileUri := by
    intro r hr hprimary
    rw [withResume, Storage.rows_set, if_pos rfl] at hr
    rcases List.mem_append.mp hr with hr | hr
    · exact absurd hprimary (hnone r hr)
    · obtain rfl : r = newResume e new owner draft := by simpa using hr
      obtain ⟨hid, -, hfile, -⟩ := newResume_columns e new owner draft
      exact ⟨hid, hfile⟩
  exact (kept_of_point hids hothers hprimary).1

theorem kept_create_primary (h : Kept s) (hflag : draft.primary = true)
    (hruns : (create user draft).run.Runs e s x s') : Kept s' := by
  unfold create at hruns
  rw [if_pos hflag] at hruns
  rcases runs_andThen_iff.mp hruns with ⟨_, s₁, hdemote, hrest⟩ | ⟨err, hdemote, -⟩
  · rcases runs_demoteAll_iff.mp hdemote with ⟨owner, howner, -, rfl⟩ | ⟨_, _, herr, _⟩
    · have hkept := h.demote fun r => r.column "user_id" = owner
      rcases runs_new hrest with ⟨new, rfl⟩ | ⟨_, new, howner', hissued, hne, hrest⟩
      · exact hkept.issue new
      · cases howner.symm.trans howner'
        rw [if_pos hflag] at hrest
        have hnone : ∀ r' ∈ (s.db.rows "resumes").map fun r =>
            if r.column "user_id" = owner then demoted r else r, ¬ IsPrimary owner r' := by
          intro r' hr' hprimary
          obtain ⟨r, -, rfl⟩ := List.mem_map.mp hr'
          split at hprimary
          · exact not_isPrimary_demoted owner r hprimary
          · rename_i hother
            exact hother hprimary.1
        rcases runs_andThen_iff.mp hrest with ⟨_, s₂, hpoint, hrest⟩ | ⟨err, hpoint, -⟩
        · obtain ⟨-, rfl⟩ := runs_pure_iff.mp hrest
          exact kept_point_new hkept hnone hissued hne howner hpoint
        · exact kept_point_new hkept hnone hissued hne howner hpoint
    · cases herr
  · rcases runs_demoteAll_iff.mp hdemote with ⟨_, _, hok, _⟩ | ⟨_, -, -, rfl⟩
    · cases hok
    · exact h

theorem kept_create_plain (h : Kept s) (hflag : ¬ draft.primary = true)
    (hruns : (create user draft).run.Runs e s x s') : Kept s' := by
  unfold create at hruns
  rw [if_neg hflag] at hruns
  rcases runs_new hruns with ⟨new, rfl⟩ | ⟨owner, new, -, hissued, hne, hrest⟩
  · exact h.issue new
  · rw [if_neg hflag] at hrest
    obtain ⟨-, rfl⟩ := runs_pure_iff.mp hrest
    refine ⟨(h.withResume e owner draft hissued hne).1, ?_⟩
    intro other
    apply ((h.issue new).settled other).add
    rintro ⟨-, hprimary⟩
    rw [(newResume_columns e new owner draft).2.2.2] at hprimary
    exact hflag (Value.bool.inj hprimary)

theorem kept_create (h : Kept s) (hruns : (create user draft).run.Runs e s x s') : Kept s' := by
  by_cases hflag : draft.primary = true
  · exact kept_create_primary h hflag hruns
  · exact kept_create_plain h hflag hruns

theorem kept_upload (h : Kept s) {name fileName : String} {bytes : ByteArray} {primary : Bool}
    (hruns : (upload user name fileName bytes primary).run.Runs e s x s') : Kept s' := by
  rcases runs_andThen_iff.mp hruns with ⟨fileUri, s₁, hput, hcreate⟩ | ⟨err, hput, rfl⟩
  · obtain ⟨blobs, rfl⟩ := runs_putBlob hput
    exact kept_create (h.with_blobs blobs) hcreate
  · obtain ⟨blobs, rfl⟩ := runs_putBlob hput
    exact h.with_blobs blobs

end Create

theorem kept_delete (h : Kept s) {x : Except ServiceError Unit}
    (hruns : (delete id user).run.Runs e s x s') : Kept s' := by
  have howned : ∀ {y : Except ServiceError Record} {s₁ : Storage}, (Service.owned
      "DELETE FROM resumes WHERE id = $1::uuid AND user_id = $2::uuid RETURNING id" id user
      missing).run.Runs e s y s₁ → Kept s₁ := by
    intro y s₁ hruns
    rcases runs_owned read?_delete (run_delete_row s.db) hruns with ⟨_, _, -, -, -, rfl⟩ | ⟨_, -, rfl | ⟨_, -, rfl⟩⟩
    · exact h.filter _
    · exact h
    · exact h.filter _
  rcases runs_andThen_iff.mp hruns with ⟨_, s₁, hdelete, hdone⟩ | ⟨_, hdelete, -⟩
  · obtain ⟨-, rfl⟩ := runs_pure_iff.mp hdone
    exact howned hdelete
  · exact howned hdelete

/-! ## Changing a resume -/

/-- The patch makes no resume primary, or it says so under the wire name of the flag. -/
def IsHonest (patch : Value) : Prop :=
  ∀ key v, patch.lastSpelled? "is_primary" = some (key, v) → castBoolean v = .ok (.bool true) →
    (patch.get? "isPrimary").bind Value.flag? = some true

section Update

variable {patch : Value} {sets : List (String × (Record → Value))} {scope : Value × Value}

theorem column_patched (h : assigned e patch = .ok sets) (scope : Value × Value) {c : String}
    (hc : c ∉ fields) (r : Record) :
    (if IsRow scope.1 scope.2 r then change sets r else r).column c = r.column c := by
  split
  · exact column_assigned h hc r
  · rfl

theorem Kept.assign (h : Kept s) (hsets : assigned e patch = .ok sets)
    (hflag : ∀ key v, patch.lastSpelled? "is_primary" = some (key, v) → castBoolean v ≠ .ok (.bool true))
    (scope : Value × Value) :
    Kept (s.set "resumes" ((s.db.rows "resumes").map fun r =>
      if IsRow scope.1 scope.2 r then change sets r else r)) := by
  refine h.map (column_patched hsets scope (by decide)) (column_patched hsets scope (by decide)) ?_
  rintro owner r - ⟨howner, hprimary⟩
  rw [column_patched hsets scope (by decide)] at howner
  refine ⟨howner, ?_⟩
  split at hprimary
  · cases hlast : patch.lastSpelled? "is_primary" with
    | none => rwa [primary_unassigned hsets hlast] at hprimary
    | some entry =>
      have hcast := primary_assigned hsets hlast r
      rw [hprimary] at hcast
      exact absurd hcast (hflag entry.1 entry.2 hlast)
  · exact hprimary

theorem Kept.assign_of_pointed (h : Kept s) (hsets : assigned e patch = .ok sets)
    (hpointed : Pointed scope.2 scope.1 file s.db)
    (hfile : ∀ r ∈ s.db.rows "resumes", r.column "id" = scope.1 → r.column "file_uri" = file) :
    Kept (s.set "resumes" ((s.db.rows "resumes").map fun r =>
      if IsRow scope.1 scope.2 r then change sets r else r)) := by
  refine ⟨h.ids.map (column_patched hsets scope (by decide)), ?_⟩
  intro owner
  by_cases howner : owner = scope.2
  · subst howner
    refine .inr ⟨scope.1, file, ?_, hpointed.profile⟩
    intro r' hr' hprimary
    rw [Storage.rows_set, if_pos rfl] at hr'
    obtain ⟨r, hr, rfl⟩ := List.mem_map.mp hr'
    rw [column_patched hsets scope (by decide), column_patched hsets scope (by decide)]
    split at hprimary
    · rename_i hrow
      exact ⟨hrow.1, hfile r hr hrow.1⟩
    · exact hpointed.primary r hr hprimary
  · apply (h.settled owner).map (column_patched hsets scope (by decide))
      (column_patched hsets scope (by decide))
    intro r hr hprimary
    split at hprimary
    · rename_i hrow
      rw [IsPrimary, column_assigned hsets (by decide)] at hprimary
      exact absurd (hprimary.1.symm.trans hrow.2) howner
    · exact hprimary

theorem runs_patched {statement : Statement}
    (hs : updateTemplate.compile [.text id, .text user] patch = .ok statement)
    (hscope : castScope id user = .ok scope) {x : Except ServiceError Record}
    (hruns : (do
      let rows ← Service.execute statement.sql statement.params
      Service.first rows missing : Service Record).run.Runs e s x s') :
    s' = s ∨ ∃ sets, assigned e patch = .ok sets ∧
      s' = s.set "resumes" ((s.db.rows "resumes").map fun r =>
        if IsRow scope.1 scope.2 r then change sets r else r) := by
  have hstatement : ∀ {y : Except ServiceError (List Record)} {s₁ : Storage},
      (Service.execute statement.sql statement.params).run.Runs e s y s₁ →
        s₁ = s ∨ ∃ sets, assigned e patch = .ok sets ∧
          s₁ = s.set "resumes" ((s.db.rows "resumes").map fun r =>
            if IsRow scope.1 scope.2 r then change sets r else r) := by
    intro y s₁ hexecute
    rcases (runs_patch_iff hs).mp hexecute with ⟨⟨sets, scope'⟩, hbound, -, rfl⟩ | ⟨_, -, -, rfl⟩
    · obtain ⟨hsets, hscope'⟩ := castPatch_eq_ok_iff.mp hbound
      cases hscope.symm.trans hscope'
      exact .inr ⟨sets, hsets, rfl⟩
    · exact .inl rfl
  rcases runs_andThen_iff.mp hruns with ⟨rows, s₁, hexecute, hfirst⟩ | ⟨err, hexecute, -⟩
  · obtain ⟨rfl, -⟩ := runs_first_iff.mp hfirst
    exact hstatement hexecute
  · exact hstatement hexecute

/-- Storage after a row has taken the primary place from the owner's others. -/
def promoted (scope : Value × Value) (file : Value) (s : Storage) : Storage :=
  Storage.set (s.set "resumes" ((s.db.rows "resumes").map fun r =>
      if r.column "user_id" = scope.2 ∧ isDifferent (r.column "id") scope.1 then demoted r else r))
    "users" ((s.db.rows "users").map fun a =>
      if a.column "id" = scope.2 then a.insert "resume_uri" file else a)

theorem kept_promoted (h : Kept s) (hscope : castScope id user = .ok scope)
    (hfile : ∀ r ∈ s.db.rows "resumes", r.column "id" = scope.1 → r.column "file_uri" = file) :
    Kept (promoted scope file s) ∧ Pointed scope.2 scope.1 file (promoted scope file s).db ∧
      ∀ r ∈ (promoted scope file s).db.rows "resumes", r.column "id" = scope.1 →
        r.column "file_uri" = file := by
  have hkept := h.demote fun r => r.column "user_id" = scope.2 ∧ isDifferent (r.column "id") scope.1
  have htarget : scope.1 ≠ .null := ne_null_of_castUuid (castScope_eq_ok_iff.mp hscope).1
  have hrows : ∀ r' ∈ (promoted scope file s).db.rows "resumes", ∃ r ∈ s.db.rows "resumes",
      r'.column "id" = r.column "id" ∧ r'.column "file_uri" = r.column "file_uri" ∧
        (IsPrimary scope.2 r' → r.column "id" = scope.1) := by
    intro r' hr'
    obtain ⟨r, hr, rfl⟩ := List.mem_map.mp hr'
    refine ⟨r, hr, ?_⟩
    split
    · refine ⟨column_demoted r _, column_demoted r _, ?_⟩
      intro hprimary
      exact absurd hprimary (not_isPrimary_demoted _ r)
    · rename_i hkeep
      refine ⟨rfl, rfl, ?_⟩
      intro hprimary
      by_contra hother
      apply hkeep
      refine ⟨hprimary.1, ?_⟩
      rw [isDifferent_eq_decide (h.ids.issued r hr).2 htarget]
      exact decide_eq_true hother
  have hprimary : ∀ r' ∈ (promoted scope file s).db.rows "resumes", IsPrimary scope.2 r' →
      r'.column "id" = scope.1 ∧ r'.column "file_uri" = file := by
    intro r' hr' hprimary
    obtain ⟨r, hr, hid, huri, htarget⟩ := hrows r' hr'
    rw [hid, huri]
    exact ⟨htarget hprimary, hfile r hr (htarget hprimary)⟩
  obtain ⟨hpoint, hpointed⟩ := kept_of_point hkept.ids (fun other _ => hkept.settled other) hprimary
  refine ⟨hpoint, hpointed, ?_⟩
  intro r' hr' hid'
  obtain ⟨r, hr, hid, huri, -⟩ := hrows r' hr'
  rw [huri]
  exact hfile r hr (hid.symm.trans hid')

theorem kept_found (h : Kept s) (honest : IsHonest patch) (hscope : castScope id user = .ok scope)
    (hfile : ∀ r ∈ s.db.rows "resumes", r.column "id" = scope.1 → r.column "file_uri" = file)
    {statement : Statement} (hs : updateTemplate.compile [.text id, .text user] patch = .ok statement)
    {x : Except ServiceError Record}
    (hruns : (if (patch.get? "isPrimary").bind Value.flag? = some true then (do
        let _ ← Service.execute
          "UPDATE resumes SET is_primary = FALSE WHERE user_id = $1::uuid AND id != $2::uuid"
          [.text user, .text id]
        pointProfile user file
        let rows ← Service.execute statement.sql statement.params
        Service.first rows missing : Service Record)
      else (do
        let rows ← Service.execute statement.sql statement.params
        Service.first rows missing : Service Record)).run.Runs e s x s') : Kept s' := by
  obtain ⟨-, howner⟩ := castScope_eq_ok_iff.mp hscope
  split at hruns
  · rcases runs_andThen_iff.mp hruns with ⟨_, s₁, hdemote, hrest⟩ | ⟨_, hdemote, -⟩
    · obtain ⟨-, rfl⟩ := (runs_demoteOthers_of_cast hscope).mp hdemote
      rcases runs_andThen_iff.mp hrest with ⟨_, s₂, hpoint, hrest⟩ | ⟨_, hpoint, -⟩
      · obtain ⟨-, rfl⟩ := (runs_pointProfile_of_cast howner).mp hpoint
        obtain ⟨hkept, hpointed, hfile⟩ := kept_promoted h hscope hfile
        rcases runs_patched hs hscope hrest with rfl | ⟨sets, hsets, rfl⟩
        · exact hkept
        · exact hkept.assign_of_pointed hsets hpointed hfile
      · cases ((runs_pointProfile_of_cast howner).mp hpoint).1
    · cases ((runs_demoteOthers_of_cast hscope).mp hdemote).1
  · rename_i hflag
    rcases runs_patched hs hscope hruns with rfl | ⟨sets, hsets, rfl⟩
    · exact h
    · refine h.assign hsets ?_ scope
      intro key v hlast hcast
      exact hflag (honest key v hlast hcast)

theorem kept_update (h : Kept s) (honest : IsHonest patch) {x : Except ServiceError Record}
    (hruns : (update id user patch).run.Runs e s x s') : Kept s' := by
  rcases runs_andThen_iff.mp hruns with ⟨existing, s₁, hexisting, hrest⟩ | ⟨_, hexisting, -⟩
  · rcases runs_owned read?_existing (run_existing s.db) hexisting with
      ⟨scope, row, hscope, hrow, hok, rfl⟩ | ⟨_, herr, -⟩
    · cases hok
      obtain ⟨r, hr, hisRow, huri⟩ := mem_foundRows (List.mem_of_head? hrow)
      have hfile : ∀ other ∈ s.db.rows "resumes", other.column "id" = scope.1 →
          other.column "file_uri" = existing.column "file_uri" := by
        intro other hother hid
        obtain rfl : other = r :=
          List.inj_on_of_nodup_map h.ids.nodup hother hr (hid.trans hisRow.1.symm)
        exact huri.symm
      unfold Service.compile at hrest
      cases hs : updateTemplate.compile [.text id, .text user] patch with
      | error err =>
        rw [hs] at hrest
        obtain ⟨-, rfl⟩ := runs_throw_iff.mp hrest
        exact h
      | ok statement =>
        rw [hs] at hrest
        exact kept_found h honest hscope hfile hs hrest
    · cases herr
  · rcases runs_owned read?_existing (run_existing s.db) hexisting with
      ⟨_, _, -, -, hok, -⟩ | ⟨_, -, rfl | ⟨_, -, rfl⟩⟩
    · cases hok
    · exact h
    · exact h

end Update

end JobTrail.Resume
