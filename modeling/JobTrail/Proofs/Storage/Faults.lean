import JobTrail.Proofs.Blob.Store
import JobTrail.Proofs.Storage.Runs
import JobTrail.Proofs.Task.Scripts

/-!
# Storage that may fail

Storage that does what it is asked or fails, at any step. A statement that fails leaves the tables as they
are, and a put that fails changes no file, though it may leave directories behind. What a task has done to
such storage is read off its script: each answer is one that storage can give in the state it has by then.
-/

namespace JobTrail.Storage

open Sql

variable {e : Engine} {s s' s'' : Storage}

def Responds (e : Engine) (s : Storage) (r : Effect) (x : r.Answer) (s' : Storage) : Prop :=
  Serves e s r x s' ∨ Fails s r x s' ∧ s.blobs.KeepsFiles s'.blobs

/-- A statement answers as its query does, or it fails and nothing is changed. -/
theorem Responds.execute {sql : String} {q : Query} (hread : read? sql = some q) {params : List Value}
    {x : Except DatabaseError (List Record)} (h : Responds e s (.execute ⟨sql, params⟩) x s') :
    (∃ rows db', x = .ok rows ∧ q.run e params s.db = .ok (rows, db') ∧ s' = { s with db := db' }) ∨
      ∃ err, x = .error err ∧ s' = s := by
  rcases h with hserves | ⟨hfails, -⟩
  · cases hserves with
    | execute =>
      obtain ⟨x, db', hanswer⟩ : ∃ x db', answer e ⟨sql, params⟩ s.db = (x, db') := ⟨_, _, rfl⟩
      rw [hanswer]
      rcases answer_of_read? hread hanswer with ⟨rows, rfl, hrun⟩ | ⟨err, rfl, -, rfl⟩
      · exact .inl ⟨rows, db', rfl, hrun, rfl⟩
      · exact .inr ⟨err, rfl, rfl⟩
  · cases hfails with
    | execute _ err => exact .inr ⟨err, rfl, rfl⟩

theorem Responds.freshId {id : String} (h : Responds e s .freshId id s') : s'.db = s.db := by
  rcases h with hserves | ⟨hfails, -⟩
  · cases hserves
    rfl
  · cases hfails

/-- A put binds its path, or it fails and no file is changed. -/
theorem Responds.put {path : String} {bytes : ByteArray} {x : Except BlobError String}
    (h : Responds e s (.putBlob path bytes) x s') (htree : s.blobs.disk.IsTree) :
    ∃ blobs, s' = { s with blobs } ∧ ((∃ uri, x = .ok uri ∧ s.blobs.Binds path bytes uri blobs) ∨
      (∃ err, x = .error err) ∧ s.blobs.KeepsFiles blobs) := by
  rcases h with hserves | ⟨hfails, hkeeps⟩
  · cases hserves with
    | putBlob =>
      cases hput : s.blobs.put path bytes with
      | mk y blobs =>
        refine ⟨blobs, rfl, ?_⟩
        cases y with
        | ok uri => exact .inl ⟨uri, rfl, BlobStore.binds_of_put_ok htree hput⟩
        | error err => exact .inr ⟨⟨err, rfl⟩, BlobStore.keepsFiles_of_put_error htree hput⟩
  · cases hfails with
    | putBlob _ _ err blobs => exact ⟨blobs, rfl, .inr ⟨⟨err, rfl⟩, hkeeps⟩⟩

/-- No file is touched but by a put that succeeds. -/
theorem Responds.keepsFiles_or_binds {r : Effect} {x : r.Answer} (h : Responds e s r x s')
    (htree : s.blobs.disk.IsTree) :
    s.blobs.KeepsFiles s'.blobs ∨
      ∃ path bytes uri, r = .putBlob path bytes ∧ s.blobs.Binds path bytes uri s'.blobs := by
  cases r with
  | putBlob path bytes =>
    obtain ⟨blobs, rfl, ⟨uri, -, hbinds⟩ | ⟨-, hkeeps⟩⟩ := h.put htree
    · exact .inr ⟨path, bytes, uri, rfl, hbinds⟩
    · exact .inl hkeeps
  | _ =>
    left
    rcases h with hserves | ⟨-, hkeeps⟩
    · cases hserves
      exact .refl s.blobs
    · exact hkeeps

/-- Storage gives the answers of a script, one after the other. -/
inductive Follows (e : Engine) : Storage → List Exchange → Storage → Prop where
  | nil (s : Storage) : Follows e s [] s
  | cons {exchange : Exchange} {script : List Exchange} {s s' s'' : Storage} :
      Responds e s exchange.effect exchange.answer s' → Follows e s' script s'' →
      Follows e s (exchange :: script) s''

/-- A run leaves a script that storage follows. -/
theorem exists_follows_of_runs {α : Type} {t : Task α} {a : α} (h : t.Runs e s a s') :
    ∃ script, t.Plays script a ∧ Follows e s script s' := by
  induction h with
  | done a s => exact ⟨[], .done a, .nil s⟩
  | ask hserves _ ih =>
    obtain ⟨script, hplays, hfollows⟩ := ih
    exact ⟨_, .ask hplays, .cons (.inl hserves) hfollows⟩

theorem follows_singleton_iff {exchange : Exchange} :
    Follows e s [exchange] s' ↔ Responds e s exchange.effect exchange.answer s' := by
  constructor
  · intro h
    cases h with
    | cons hresponds hrest =>
      cases hrest
      exact hresponds
  · intro h
    exact .cons h (.nil s')

theorem follows_append_iff {first rest : List Exchange} :
    Follows e s (first ++ rest) s'' ↔ ∃ s', Follows e s first s' ∧ Follows e s' rest s'' := by
  induction first generalizing s with
  | nil =>
    constructor
    · intro h
      exact ⟨s, .nil s, h⟩
    · rintro ⟨s', hnil, h⟩
      cases hnil
      exact h
  | cons exchange first ih =>
    constructor
    · intro h
      cases h with
      | cons hresponds hrest =>
        obtain ⟨s', hfirst, hrest⟩ := ih.mp hrest
        exact ⟨s', .cons hresponds hfirst, hrest⟩
    · rintro ⟨s', hcons, hrest⟩
      cases hcons with
      | cons hresponds hfirst => exact .cons hresponds (ih.mpr ⟨s', hfirst, hrest⟩)

theorem Follows.execute_cons {sql : String} {q : Query} (hread : read? sql = some q) {params : List Value}
    {x : Except DatabaseError (List Record)} {script : List Exchange}
    (h : Follows e s (⟨.execute ⟨sql, params⟩, x⟩ :: script) s') :
    (∃ rows db', x = .ok rows ∧ q.run e params s.db = .ok (rows, db') ∧
        Follows e { s with db := db' } script s') ∨
      ∃ err, x = .error err ∧ Follows e s script s' := by
  cases h with
  | cons hresponds hrest =>
    rcases hresponds.execute hread with ⟨rows, db', hx, hrun, rfl⟩ | ⟨err, hx, rfl⟩
    · exact .inl ⟨rows, db', hx, hrun, hrest⟩
    · exact .inr ⟨err, hx, hrest⟩

/-- A statement of a service is run as its query is, or it fails and nothing is changed. -/
theorem follows_execute {sql : String} {q : Query} (hread : read? sql = some q) {params : List Value}
    {script : List Exchange} {x : Except ServiceError (List Record)}
    (hplays : (Service.execute sql params).run.Plays script x) (hfollows : Follows e s script s') :
    (∃ rows db', x = .ok rows ∧ q.run e params s.db = .ok (rows, db') ∧ s' = { s with db := db' }) ∨
      ∃ err, x = .error (.database err) ∧ script = [⟨.execute ⟨sql, params⟩, .error err⟩] ∧ s' = s := by
  obtain ⟨y, rfl, rfl⟩ := (Task.plays_perform_iff (r := .execute ⟨sql, params⟩)).mp hplays
  rcases (follows_singleton_iff.mp hfollows).execute hread with ⟨rows, db', hy, hrun, rfl⟩ | ⟨err, hy, rfl⟩
  · dsimp only at hy
    subst hy
    exact .inl ⟨rows, db', rfl, hrun, rfl⟩
  · dsimp only at hy
    subst hy
    exact .inr ⟨err, rfl, rfl, rfl⟩

end JobTrail.Storage
