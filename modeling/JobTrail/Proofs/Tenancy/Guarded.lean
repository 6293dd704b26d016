import JobTrail.Proofs.Tenancy.Queries

/-!
# Tasks that keep to one owner

`Guarded e caller Q t ρ` says of a task that is run for a caller, while any other tasks run between its
statements: each effect keeps to the caller's rows and leaves storage consistent, whatever consistent
storage it meets by then, and what the task ends with satisfies `Q`. The registry only grows, so it
carries what one statement has shown about an id over to the next.
-/

namespace JobTrail.Tenancy

open Sql Storage

/-- Nothing but values of the user's rows is answered. -/
def AnswerDrawn (user : String) (db db' : Database) : (r : Effect) → r.Answer → Prop
  | .execute _, .ok rows => ∀ row ∈ rows, Drawn user db db' row
  | _, _ => True

/-- An effect keeps to the rows of its caller; a task without a caller may do anything. -/
def Confined (caller : Option String) (s : Storage) (r : Effect) (x : r.Answer) (s' : Storage) : Prop :=
  ∀ user ∈ caller, Isolated user s.db s'.db ∧ AnswerDrawn user s.db s'.db r x

variable {e : Engine} {caller : Option String} {α β : Type} {ρ : Registry}

theorem confined_of_db_eq {s s' : Storage} {r : Effect} {x : r.Answer} (hdb : s'.db = s.db)
    (hx : ∀ user, AnswerDrawn user s.db s'.db r x) : Confined caller s r x s' := fun user _ =>
  ⟨hdb ▸ .refl user s.db, hx user⟩

def Guarded (e : Engine) (caller : Option String) (Q : α → Registry → Prop) : Task α → Registry → Prop
  | .done a, ρ => Q a ρ
  | .ask r next, ρ => ∀ ρ' s x s', ρ.Grows ρ' → Consistent ρ' s → Answers e s r x s' →
      Confined caller s r x s' ∧
        ∃ ρ'', ρ'.Grows ρ'' ∧ Consistent ρ'' s' ∧ Guarded e caller Q (next x) ρ''

theorem Guarded.bind {P : α → Registry → Prop} {Q : β → Registry → Prop} {t : Task α} {f : α → Task β}
    (ht : Guarded e caller P t ρ)
    (hf : ∀ a ρ', ρ.Grows ρ' → P a ρ' → Guarded e caller Q (f a) ρ') :
    Guarded e caller Q (t.bind f) ρ := by
  induction t generalizing ρ with
  | done a => exact hf a ρ (.refl ρ) ht
  | ask r next ih =>
    intro ρ' s x s' hgrows hs hx
    obtain ⟨hconfined, ρ'', hgrows', hs', hnext⟩ := ht ρ' s x s' hgrows hs hx
    refine ⟨hconfined, ρ'', hgrows', hs', ih x hnext fun a ρ₃ hgrows₃ ha => ?_⟩
    exact hf a ρ₃ ((hgrows.trans hgrows').trans hgrows₃) ha

theorem Guarded.later {Q : α → Registry → Prop} {t : Task α} {ρ' : Registry}
    (hQ : ∀ a, Q a ρ → Q a ρ') (ht : Guarded e caller Q t ρ) (hgrows : ρ.Grows ρ') :
    Guarded e caller Q t ρ' := by
  cases t with
  | done a => exact hQ a ht
  | ask r next => exact fun ρ'' s x s' hgrows' hs hx => ht ρ'' s x s' (hgrows.trans hgrows') hs hx

/-! ## Services -/

/-- A service that may end with any error, and otherwise with what satisfies `Q`. -/
def Sound (e : Engine) (caller : Option String) (Q : α → Registry → Prop) (m : Service α) (ρ : Registry) :
    Prop :=
  Guarded e caller (fun x ρ' => ∀ a, x = .ok a → Q a ρ') m.run ρ

variable {P Q : α → Registry → Prop} {m : Service α}

theorem sound_pure {a : α} (h : Q a ρ) : Sound e caller Q (pure a) ρ := fun b hb => by
  cases hb
  exact h

theorem sound_throw (err : ServiceError) : Sound e caller Q (throw err) ρ := fun _ hb => nomatch hb

theorem Sound.bind {R : β → Registry → Prop} {f : α → Service β} (hm : Sound e caller P m ρ)
    (hf : ∀ a ρ', ρ.Grows ρ' → P a ρ' → Sound e caller R (f a) ρ') :
    Sound e caller R (m >>= f) ρ := by
  refine Guarded.bind hm fun x ρ' hgrows hx => ?_
  cases x with
  | ok a => exact hf a ρ' hgrows (hx a rfl)
  | error err => exact fun _ hb => nomatch hb

theorem Sound.imp (hm : Sound e caller P m ρ) (h : ∀ a ρ', ρ.Grows ρ' → P a ρ' → Q a ρ') :
    Sound e caller Q m ρ := by
  have hbind := hm.bind fun a ρ' hgrows ha => sound_pure (h a ρ' hgrows ha)
  rwa [bind_pure] at hbind

theorem sound_whether {c : Prop} [Decidable c] {first rest : Service α}
    (hfirst : (∀ ρ', ρ.Grows ρ' → Sound e caller Q rest ρ') → Sound e caller Q first ρ)
    (hrest : ∀ ρ', ρ.Grows ρ' → Sound e caller Q rest ρ') :
    Sound e caller Q (if c then first else rest) ρ := by
  split
  · exact hfirst hrest
  · exact hrest ρ (.refl ρ)

theorem Sound.tryCatch {handle : ServiceError → Service α} (hm : Sound e caller Q m ρ)
    (hhandle : ∀ err ρ', Sound e caller Q (handle err) ρ') : Sound e caller Q (tryCatch m handle) ρ := by
  refine Guarded.bind hm fun x ρ' _ hx => ?_
  cases x with
  | ok a => exact hx
  | error err => exact hhandle err ρ'

theorem sound_forM {f : β → Service PUnit} (h : ∀ b ρ', Sound e caller (fun _ _ => True) (f b) ρ')
    (l : List β) (ρ : Registry) : Sound e caller (fun _ _ => True) (l.forM f) ρ := by
  induction l generalizing ρ with
  | nil => exact sound_pure trivial
  | cons b rest ih => exact (h b ρ).bind fun _ ρ' _ _ => ih ρ'

/-! ## Effects -/

theorem sound_freshId (owner : Value) :
    Sound e caller (fun v ρ' => ρ'.Has owner v) Service.freshId ρ := by
  intro ρ' s x s' hgrows hs hx
  rcases hx with hx | hx
  · cases hx with
    | freshId hcast hnew =>
      obtain ⟨ρ'', hgrows', hid, hs'⟩ := hs.give (castUuid_idem hcast) hnew owner
      refine ⟨confined_of_db_eq rfl fun _ => trivial, ρ'', hgrows', hs', ?_⟩
      rintro a ⟨⟩ v hv
      cases hcast.symm.trans hv
      exact hid
  · cases hx

theorem sound_freshId_for (user : String) :
    Sound e caller (fun v ρ' => ∀ owner, castUuid (.text user) = .ok owner → ρ'.Has owner v)
      Service.freshId ρ := by
  cases howner : castUuid (.text user) with
  | ok o =>
    refine (sound_freshId o).imp fun v ρ' _ hv owner ho => ?_
    cases ho
    exact hv
  | error err => exact (sound_freshId .null).imp fun _ _ _ _ _ ho => nomatch ho

theorem sound_execute {sql : String} {q : Query} {params : List Value} {Q : List Record → Registry → Prop}
    (hread : read? sql = some q)
    (h : ∀ ρ' s rows db', ρ.Grows ρ' → Consistent ρ' s → q.run e params s.db = .ok (rows, db') →
      (∀ user ∈ caller, Isolated user s.db db' ∧ ∀ row ∈ rows, Drawn user s.db db' row) ∧
        Consistent ρ' { s with db := db' } ∧ Q rows ρ') :
    Sound e caller Q (Service.execute sql params) ρ := by
  intro ρ' s x s' hgrows hs hx
  rcases hx with hx | hx
  · cases hx with
    | execute =>
      obtain ⟨x, db', ha⟩ : ∃ x db', answer e ⟨sql, params⟩ s.db = (x, db') := ⟨_, _, rfl⟩
      rw [ha]
      rcases answer_of_read? hread ha with ⟨rows, rfl, hrun⟩ | ⟨err, rfl, -, rfl⟩
      · obtain ⟨hconfined, hs', hrows⟩ := h ρ' s rows db' hgrows hs hrun
        refine ⟨hconfined, ρ', .refl ρ', hs', ?_⟩
        rintro a ⟨⟩
        exact hrows
      · exact ⟨confined_of_db_eq rfl fun _ => trivial, ρ', .refl ρ', hs, fun _ hb => nomatch hb⟩
  · cases hx with
    | execute _ err =>
      exact ⟨confined_of_db_eq rfl fun _ => trivial, ρ', .refl ρ', hs, fun _ hb => nomatch hb⟩

theorem Consistent.with_blobs {s : Storage} (h : Consistent ρ s) (blobs : BlobStore) :
    Consistent ρ { s with blobs } := ⟨h.issued, h.registered⟩

theorem sound_putBlob (path : String) (bytes : ByteArray) :
    Sound e caller (fun _ _ => True) (Service.putBlob path bytes) ρ := by
  intro ρ' s x s' hgrows hs hx
  rcases hx with hx | hx
  · cases hx with
    | putBlob =>
      exact ⟨confined_of_db_eq rfl fun _ => trivial, ρ', .refl ρ', hs.with_blobs _, fun _ _ => trivial⟩
  · cases hx with
    | putBlob =>
      exact ⟨confined_of_db_eq rfl fun _ => trivial, ρ', .refl ρ', hs.with_blobs _, fun _ _ => trivial⟩

theorem sound_getBlob (path : String) :
    Sound e caller (fun _ _ => True) (Service.getBlob path) ρ := by
  intro ρ' s x s' hgrows hs hx
  rcases hx with hx | hx
  · cases hx with
    | getBlob => exact ⟨confined_of_db_eq rfl fun _ => trivial, ρ', .refl ρ', hs, fun _ _ => trivial⟩
  · cases hx with
    | getBlob => exact ⟨confined_of_db_eq rfl fun _ => trivial, ρ', .refl ρ', hs, fun _ _ => trivial⟩

theorem sound_locateBlob (uri : String) :
    Sound e caller (fun _ _ => True) (Service.locateBlob uri) ρ := by
  intro ρ' s x s' hgrows hs hx
  rcases hx with hx | hx
  · cases hx with
    | locateBlob => exact ⟨confined_of_db_eq rfl fun _ => trivial, ρ', .refl ρ', hs, fun _ _ => trivial⟩
  · cases hx

end JobTrail.Tenancy
