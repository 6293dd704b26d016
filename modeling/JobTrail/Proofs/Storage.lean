import JobTrail.Proofs.Sql.Reading

/-!
# Storage behind the services

The world that services run in: the tables, read and changed one statement at a time, the stored files,
and the ids that were given out. `Serves` is storage that does what it is asked; `Fails` adds that any
statement and any access to a file can fail, and a statement that fails leaves the tables as they are.
A fresh id is any UUID that was not given out before.
-/

namespace JobTrail

namespace Sql

/-- The reply to a statement, and the tables after it. -/
def answer (e : Engine) (s : Statement) (db : Database) :
    Except DatabaseError (List Record) × Database :=
  match read? s.sql with
  | none => (.error .failed, db)
  | some q =>
    match q.run e s.params db with
    | .ok (rows, db') => (.ok rows, db')
    | .error err => (.error err, db)

theorem answer_of_read? {e : Engine} {sql : String} {q : Query} (h : read? sql = some q)
    {params : List Value} {db db' : Database} {x : Except DatabaseError (List Record)}
    (ha : answer e ⟨sql, params⟩ db = (x, db')) :
    (∃ rows, x = .ok rows ∧ q.run e params db = .ok (rows, db')) ∨
      ∃ err, x = .error err ∧ q.run e params db = .error err ∧ db' = db := by
  simp only [answer, h] at ha
  split at ha
  · rename_i rows after hrun
    cases ha
    exact .inl ⟨rows, rfl, hrun⟩
  · rename_i err hrun
    cases ha
    exact .inr ⟨err, rfl, hrun, rfl⟩

end Sql

structure Storage where
  db : Sql.Database
  blobs : BlobStore
  /-- The ids that were given out. -/
  issued : List Value

namespace Storage

def empty (publicPath : String) : Storage := ⟨.empty, .new publicPath, []⟩

inductive Serves (e : Sql.Engine) : Storage → (r : Effect) → r.Answer → Storage → Prop where
  | freshId (s : Storage) {id : String} {v : Value} : Sql.castUuid (.text id) = .ok v → v ∉ s.issued →
      Serves e s .freshId id { s with issued := v :: s.issued }
  | freshSalt (s : Storage) (salt : List UInt8) : Serves e s .freshSalt salt s
  | execute (s : Storage) (statement : Statement) :
      Serves e s (.execute statement) (Sql.answer e statement s.db).1
        { s with db := (Sql.answer e statement s.db).2 }
  | putBlob (s : Storage) (path : String) (bytes : ByteArray) :
      Serves e s (.putBlob path bytes) (s.blobs.put path bytes).1
        { s with blobs := (s.blobs.put path bytes).2 }
  | getBlob (s : Storage) (path : String) : Serves e s (.getBlob path) (s.blobs.get path) s
  | locateBlob (s : Storage) (uri : String) : Serves e s (.locateBlob uri) (s.blobs.locate uri) s
  | lookUp (s : Storage) (path : List String) : Serves e s (.lookUp path) (s.blobs.disk.lookUp path) s

theorem Serves.of_run {e : Sql.Engine} {s : Storage} {sql : String} {q : Sql.Query}
    (hread : Sql.read? sql = some q) {params : List Value} {rows : List Record} {db' : Sql.Database}
    (hrun : q.run e params s.db = .ok (rows, db')) :
    Serves e s (.execute ⟨sql, params⟩) (.ok rows) { s with db := db' } := by
  have hanswer : Sql.answer e ⟨sql, params⟩ s.db = (.ok rows, db') := by
    simp only [Sql.answer, hread, hrun]
  have hserves := Serves.execute (e := e) s ⟨sql, params⟩
  rwa [hanswer] at hserves

theorem Serves.of_run_error {e : Sql.Engine} {s : Storage} {sql : String} {q : Sql.Query}
    (hread : Sql.read? sql = some q) {params : List Value} {err : DatabaseError}
    (hrun : q.run e params s.db = .error err) : Serves e s (.execute ⟨sql, params⟩) (.error err) s := by
  have hanswer : Sql.answer e ⟨sql, params⟩ s.db = (.error err, s.db) := by
    simp only [Sql.answer, hread, hrun]
  have hserves := Serves.execute (e := e) s ⟨sql, params⟩
  rwa [hanswer] at hserves

inductive Fails : Storage → (r : Effect) → r.Answer → Storage → Prop where
  | execute (s : Storage) (statement : Statement) (err : DatabaseError) :
      Fails s (.execute statement) (.error err) s
  | putBlob (s : Storage) (path : String) (bytes : ByteArray) (err : BlobError) (blobs : BlobStore) :
      Fails s (.putBlob path bytes) (.error err) { s with blobs }
  | getBlob (s : Storage) (path : String) (err : BlobError) : Fails s (.getBlob path) (.error err) s

def Answers (e : Sql.Engine) (s : Storage) (r : Effect) (x : r.Answer) (s' : Storage) : Prop :=
  Serves e s r x s' ∨ Fails s r x s'

end Storage
end JobTrail
