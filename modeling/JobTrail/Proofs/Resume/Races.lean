import JobTrail.Proofs.Resume.Primary
import JobTrail.Proofs.Storage.Races
import Mathlib.Data.List.DropRight

/-!
# Primary resumes that are added side by side

What is left if several primary resumes of one user are added at the same time. A demotion reaches only
what is stored by then, so every resume that is inserted after the last demotion stays primary, and the
profile points at the file of the call whose update of it came last.
-/

set_option maxRecDepth 8192

namespace JobTrail.Resume

open Sql Storage

variable {e : Engine} {s s' : Storage} {user : String} {owner : Value} {draft : Draft} {drafts : List Draft}
  {script : List Exchange} {result : Except ServiceError Record} {results : List (Except ServiceError Record)}

/-! ## The exchanges of one call -/

def demotionText : String := "UPDATE resumes SET is_primary = FALSE WHERE user_id = $1::uuid"

def additionText : String :=
  ("INSERT INTO resumes (id, user_id, name, file_name, file_uri, is_primary) "
   ++ "VALUES ($1::uuid, $2::uuid, $3, $4, $5, $6) "
   ++ "RETURNING *")

def pointingText : String := "UPDATE users SET resume_uri = $1 WHERE id = $2::uuid"

/-- What a call for a primary resume does, if its resume is stored as `row`. -/
def createScript (user : String) (draft : Draft) (id : String) (row : Record) : List Exchange :=
  [⟨.execute ⟨demotionText, [.text user]⟩, .ok []⟩,
    ⟨.freshId, id⟩,
    ⟨.execute ⟨additionText, [.text id, .text user, .text draft.name, .text draft.fileName,
      .text draft.fileUri, .bool draft.primary]⟩, .ok [row]⟩,
    ⟨.execute ⟨pointingText, [.text draft.fileUri, .text user]⟩, .ok []⟩]

theorem obeys_demotion_iff {x : Except DatabaseError (List Record)} :
    Obeys e s (.execute ⟨demotionText, [.text user]⟩) x s' ↔
      ∃ owner, castUuid (.text user) = .ok owner ∧ x = .ok [] ∧
        s' = s.set "resumes" ((s.db.rows "resumes").map fun r =>
          if r.column "user_id" = owner then demoted r else r) := by
  constructor
  · intro h
    obtain ⟨rows, rfl, hruns⟩ := h.runs
    rcases runs_demoteAll_iff.mp hruns with ⟨owner, howner, hrows, rfl⟩ | ⟨err, -, herr, -⟩
    · cases hrows
      exact ⟨owner, howner, rfl, rfl⟩
    · cases herr
  · rintro ⟨owner, howner, rfl, rfl⟩
    exact obeys_of_runs (runs_demoteAll_iff.mpr (.inl ⟨owner, howner, rfl, rfl⟩))

theorem obeys_addition_iff {id : String} {x : Except DatabaseError (List Record)} :
    Obeys e s (.execute ⟨additionText, [.text id, .text user, .text draft.name, .text draft.fileName,
        .text draft.fileUri, .bool draft.primary]⟩) x s' ↔
      ∃ new owner, castUuid (.text id) = .ok new ∧ castUuid (.text user) = .ok owner ∧
        x = .ok [newResume e new owner draft] ∧
        s' = s.set "resumes" (s.db.rows "resumes" ++ [newResume e new owner draft]) := by
  constructor
  · intro h
    obtain ⟨rows, rfl, hruns⟩ := h.runs
    rcases (runs_execute_iff read?_addition).mp hruns with ⟨_, _, hrun, -, -⟩ | ⟨_, -, herr, -⟩
    · obtain ⟨row, hnew, -, -⟩ := run_addition hrun
      rcases (runs_add_iff hnew).mp hruns with ⟨owner, howner, hrows, rfl⟩ | ⟨_, -, herr, -⟩
      · cases hrows
        exact ⟨_, owner, hnew, howner, rfl, rfl⟩
      · cases herr
    · cases herr
  · rintro ⟨new, owner, hnew, howner, rfl, rfl⟩
    exact obeys_of_runs ((runs_add_iff hnew).mpr (.inl ⟨owner, howner, rfl, rfl⟩))

theorem obeys_pointing_iff {file : Value} {x : Except DatabaseError (List Record)} :
    Obeys e s (.execute ⟨pointingText, [file, .text user]⟩) x s' ↔
      ∃ owner, castUuid (.text user) = .ok owner ∧ x = .ok [] ∧
        s' = s.set "users" ((s.db.rows "users").map fun a =>
          if a.column "id" = owner then a.insert "resume_uri" file else a) := by
  constructor
  · intro h
    obtain ⟨rows, rfl, hruns⟩ := h.runs
    rcases runs_point_iff.mp hruns with ⟨owner, howner, hrows, rfl⟩ | ⟨err, -, herr, -⟩
    · cases hrows
      exact ⟨owner, howner, rfl, rfl⟩
    · cases herr
  · rintro ⟨owner, howner, rfl, rfl⟩
    exact obeys_of_runs (runs_point_iff.mpr (.inl ⟨owner, howner, rfl, rfl⟩))

/-- A call for a primary resume is its four exchanges in order, and it succeeds. -/
theorem plays_create (hprimary : draft.primary = true) (hplays : (create user draft).run.Plays script result)
    (hgives : ∀ x ∈ script, (Obeys e).Gives x) :
    ∃ owner id new, castUuid (.text user) = .ok owner ∧
      script = createScript user draft id (newResume e new owner draft) ∧
      result = .ok (newResume e new owner draft) := by
  unfold create at hplays
  rw [if_pos hprimary] at hplays
  obtain ⟨rows, rest, rfl, hnaming, ⟨s₁, s₁', hdemotion⟩, hgives₁⟩ := hplays.execute_andThen hgives
  obtain ⟨owner, howner, hrows, -⟩ := obeys_demotion_iff.mp hdemotion
  cases hrows
  obtain ⟨id, rest, rfl, hadding⟩ := Task.plays_freshId_andThen_iff.mp hnaming
  obtain ⟨-, hgives₂⟩ := List.forall_mem_cons.mp hgives₁
  obtain ⟨rows, rest, rfl, hadded, ⟨s₂, s₂', haddition⟩, hgives₃⟩ := hadding.execute_andThen hgives₂
  obtain ⟨new, owner', -, howner', hrows, -⟩ := obeys_addition_iff.mp haddition
  cases howner.symm.trans howner'
  cases hrows
  simp only [Service.first, Service.orMissing, List.head?, pure_bind, if_pos hprimary, pointProfile,
    bind_assoc] at hadded
  obtain ⟨rows, rest, rfl, hlast, ⟨s₃, s₃', hpointing⟩, -⟩ := hadded.execute_andThen hgives₃
  obtain ⟨-, -, hrows, -⟩ := obeys_pointing_iff.mp hpointing
  cases hrows
  obtain ⟨rfl, rfl⟩ := Task.plays_done_iff.mp hlast
  exact ⟨owner, id, new, howner, rfl, rfl⟩

/-! ## What one exchange changes -/

def primaries (owner : Value) (db : Database) : List Record :=
  (db.rows "resumes").filter (IsPrimary owner ·)

def PointsAt (owner file : Value) (db : Database) : Prop :=
  ∀ account ∈ db.rows "users", account.column "id" = owner → account.column "resume_uri" = file

def demotes (turn : Turn) : Bool := turn.exchange.executes demotionText

def inserts (turn : Turn) : Bool := turn.exchange.executes additionText

def points (turn : Turn) : Bool := turn.exchange.executes pointingText

theorem primaries_demoted (owner : Value) (s : Storage) :
    primaries owner (s.set "resumes" ((s.db.rows "resumes").map fun r =>
      if r.column "user_id" = owner then demoted r else r)).db = [] := by
  rw [primaries, Storage.rows_set, if_pos rfl, List.filter_eq_nil_iff]
  intro r' hr' hprimary
  obtain ⟨r, -, rfl⟩ := List.mem_map.mp hr'
  have hprimary := of_decide_eq_true hprimary
  split at hprimary
  · exact not_isPrimary_demoted owner r hprimary
  · rename_i hother
    exact hother hprimary.1

theorem primaries_added (s : Storage) {row : Record} (hrow : IsPrimary owner row) :
    primaries owner (s.set "resumes" (s.db.rows "resumes" ++ [row])).db = primaries owner s.db ++ [row] := by
  simp [primaries, Storage.rows_set, hrow]

theorem pointsAt_update (owner file : Value) (s : Storage) :
    PointsAt owner file (s.set "users" ((s.db.rows "users").map fun a =>
      if a.column "id" = owner then a.insert "resume_uri" file else a)).db := by
  intro account haccount hid
  rw [Storage.rows_set, if_pos rfl] at haccount
  obtain ⟨a, -, rfl⟩ := List.mem_map.mp haccount
  split at hid
  · rename_i howner
    rw [if_pos howner, Record.column_insert, if_pos rfl]
  · rename_i hother
    exact absurd hid hother

/-- An exchange of a call for a primary resume, and what it leaves of the tables. -/
structure Changes (owner file : Value) (row : Record) (turn : Turn) (db db' : Database) : Prop where
  primaries : primaries owner db' =
    if demotes turn then [] else if inserts turn then primaries owner db ++ [row] else primaries owner db
  profile : if points turn then PointsAt owner file db' else db'.rows "users" = db.rows "users"

theorem texts_ne : demotionText ≠ additionText ∧ demotionText ≠ pointingText ∧ additionText ≠ pointingText := by
  decide

theorem changes_of_obeys {turn : Turn} {id : String} {new : Value} (howner : castUuid (.text user) = .ok owner)
    (hprimary : draft.primary = true)
    (hpart : turn.exchange ∈ createScript user draft id (newResume e new owner draft))
    (h : Obeys e s turn.exchange.effect turn.exchange.answer s') :
    Changes owner (.text draft.fileUri) (newResume e new owner draft) turn s.db s'.db := by
  obtain ⟨place, x⟩ := turn
  obtain ⟨hda, hdp, hap⟩ := texts_ne
  simp only [createScript, List.mem_cons, List.not_mem_nil, or_false] at hpart
  rcases hpart with rfl | rfl | rfl | rfl
  · obtain ⟨owner', howner', -, rfl⟩ := obeys_demotion_iff.mp h
    cases howner.symm.trans howner'
    constructor
    · simpa [demotes] using primaries_demoted owner s
    · simp [points, hdp, Storage.rows_set]
  · have hdb : s'.db = s.db := Obeys.freshId h
    constructor
    · simp [demotes, inserts, hdb]
    · simp [points, hdb]
  · obtain ⟨new', owner', -, howner', hrow, rfl⟩ := obeys_addition_iff.mp h
    cases howner.symm.trans howner'
    have hrow : newResume e new owner draft = newResume e new' owner draft := by simpa using hrow
    obtain ⟨-, hcolumn, -, hflag⟩ := newResume_columns e new' owner draft
    constructor
    · rw [hrow]
      simpa [demotes, inserts, hda.symm] using
        primaries_added s ⟨hcolumn, hflag.trans (congrArg Value.bool hprimary)⟩
    · simp [points, hap, Storage.rows_set]
  · obtain ⟨owner', howner', -, rfl⟩ := obeys_pointing_iff.mp h
    cases howner.symm.trans howner'
    constructor
    · simp [demotes, inserts, hdp.symm, hap.symm, primaries, Storage.rows_set]
    · simpa [points] using pointsAt_update owner (.text draft.fileUri) s

/-! ## What a whole race changes -/

/-- The calls whose resume is inserted after the last demotion, in that order. -/
def winners (history : List Turn) : List Nat :=
  ((history.rtakeWhile fun turn => !demotes turn).filter inserts).map (·.place)

/-- The call that points the profile at its file after all others. -/
def lastPointing? (history : List Turn) : Option Nat := ((history.filter points).getLast?).map (·.place)

/-- A turn of the call at its place, with the resume that the call answers. -/
def IsPart (e : Engine) (user : String) (owner : Value) (drafts : List Draft)
    (results : List (Except ServiceError Record)) (turn : Turn) : Prop :=
  ∃ draft id new, drafts[turn.place]? = some draft ∧ draft.primary = true ∧
    results[turn.place]? = some (.ok (newResume e new owner draft)) ∧
    turn.exchange ∈ createScript user draft id (newResume e new owner draft)

section Along

variable {history : List Turn} (howner : castUuid (.text user) = .ok owner)
include howner

theorem primaries_along (h : Along (Obeys e) s history s')
    (hparts : ∀ turn ∈ history, IsPart e user owner drafts results turn) (hany : ∃ turn ∈ history, demotes turn) :
    (winners history).map (results[·]?) = (primaries owner s'.db).map fun row => some (.ok row) := by
  -- The last turn decides: a demotion leaves no primary resume and no winner, any other turn keeps both lists.
  induction history using List.reverseRecOn generalizing s' with
  | nil =>
    obtain ⟨turn, hturn, -⟩ := hany
    cases hturn
  | append_singleton history turn ih =>
    obtain ⟨s₁, halong, hobeys⟩ := along_concat_iff.mp h
    obtain ⟨draft, id, new, -, hprimary, hresult, hpart⟩ := hparts turn (by simp)
    have hchanges := (changes_of_obeys howner hprimary hpart hobeys).primaries
    unfold winners
    by_cases hdemotes : demotes turn
    · rw [if_pos hdemotes] at hchanges
      rw [List.rtakeWhile_concat_neg _ _ _ (by simp [hdemotes]), hchanges]
      rfl
    · rw [if_neg hdemotes] at hchanges
      have hbefore : ∃ turn ∈ history, demotes turn := by
        obtain ⟨other, hother, hdem⟩ := hany
        rcases List.mem_append.mp hother with hmem | hmem
        · exact ⟨other, hmem, hdem⟩
        · exact absurd (List.mem_singleton.mp hmem ▸ hdem) hdemotes
      have hih := ih halong (fun turn hturn => hparts turn (List.mem_append_left _ hturn)) hbefore
      rw [List.rtakeWhile_concat_pos _ _ _ (by simp [hdemotes]), List.filter_append, List.map_append,
        List.map_append, ← winners, hih, hchanges]
      by_cases hinserts : inserts turn
      · simp [hinserts, hresult]
      · simp [hinserts]

theorem profile_along (h : Along (Obeys e) s history s')
    (hparts : ∀ turn ∈ history, IsPart e user owner drafts results turn) {place : Nat}
    (hlast : lastPointing? history = some place) (hdraft : drafts[place]? = some draft) :
    PointsAt owner (.text draft.fileUri) s'.db := by
  induction history using List.reverseRecOn generalizing s' with
  | nil => cases hlast
  | append_singleton history turn ih =>
    obtain ⟨s₁, halong, hobeys⟩ := along_concat_iff.mp h
    obtain ⟨draft', id, new, hdraft', hprimary, -, hpart⟩ := hparts turn (by simp)
    have hchanges := (changes_of_obeys howner hprimary hpart hobeys).profile
    unfold lastPointing? at hlast
    by_cases hpoints : points turn
    · rw [if_pos hpoints] at hchanges
      have hplace : turn.place = place := by simpa [hpoints] using hlast
      rw [hplace, hdraft] at hdraft'
      cases hdraft'
      exact hchanges
    · rw [if_neg hpoints] at hchanges
      have hsame : (history ++ [turn]).filter points = history.filter points := by simp [hpoints]
      rw [hsame] at hlast
      have hih := ih halong (fun turn hturn => hparts turn (List.mem_append_left _ hturn)) hlast
      unfold PointsAt
      rw [hchanges]
      exact hih

end Along

/-! ## Races of calls -/

section Race

variable {history : List Turn}

theorem demotes_of_mem_script {id : String} {row : Record} {x : Exchange}
    (hx : x ∈ (createScript user draft id row).tail) (place : Nat) : ¬ demotes ⟨place, x⟩ := by
  obtain ⟨hda, hdp, -⟩ := texts_ne
  simp only [createScript, List.tail_cons, List.mem_cons, List.not_mem_nil, or_false] at hx
  rcases hx with rfl | rfl | rfl
  · simp [demotes]
  · simp [demotes, hda.symm]
  · simp [demotes, hdp.symm]

/-- What follows the last element that fails a test. -/
theorem exists_eq_append_rtakeWhile {α : Type} {p : α → Bool} {l : List α} (h : ∃ a ∈ l, ¬ p a) :
    ∃ before a, l = before ++ a :: l.rtakeWhile p ∧ ¬ p a := by
  induction l using List.reverseRecOn with
  | nil =>
    obtain ⟨a, ha, -⟩ := h
    cases ha
  | append_singleton l b ih =>
    by_cases hb : p b
    · obtain ⟨a, ha, hpa⟩ := h
      have hmem : a ∈ l := by
        rcases List.mem_append.mp ha with hmem | hmem
        · exact hmem
        · exact absurd (List.mem_singleton.mp hmem ▸ hb) hpa
      obtain ⟨before, c, hl, hc⟩ := ih ⟨a, hmem, hpa⟩
      refine ⟨before, c, ?_, hc⟩
      rw [List.rtakeWhile_concat_pos _ _ _ hb, ← List.cons_append, ← List.append_assoc, ← hl]
    · refine ⟨l, b, ?_, hb⟩
      rw [List.rtakeWhile_concat_neg _ _ _ hb]

/-- The call that demotes last inserts its resume after that. -/
theorem winners_ne_nil (hany : ∃ turn ∈ history, demotes turn)
    (hscripts : ∀ turn ∈ history, ∃ draft id row, turnsAt turn.place history = createScript user draft id row) :
    winners history ≠ [] := by
  obtain ⟨before, last, hsplit, hlast⟩ :=
    exists_eq_append_rtakeWhile (p := fun turn => !demotes turn) (by simpa using hany)
  obtain ⟨draft, id, row, hscript⟩ := hscripts last (by rw [hsplit]; simp)
  rw [hsplit, turnsAt_append, turnsAt_cons, if_pos rfl, createScript, List.append_eq_cons_iff] at hscript
  rcases hscript with ⟨-, hcons⟩ | ⟨rest, -, htail⟩
  · obtain ⟨x, hx, hinserts⟩ : ∃ x ∈ turnsAt last.place (history.rtakeWhile fun turn => !demotes turn),
        x.executes additionText := by
      rw [(List.cons.inj hcons).2]
      exact ⟨_, List.mem_cons_of_mem _ List.mem_cons_self, by simp⟩
    intro hnone
    exact List.filter_eq_nil_iff.mp (List.map_eq_nil_iff.mp hnone) _ (mem_turnsAt_iff.mp hx) hinserts
  · have hmem : last.exchange ∈ (createScript user draft id row).tail := by
      rw [createScript, List.tail_cons, htail]
      simp
    exact absurd (by simpa using hlast) (demotes_of_mem_script hmem last.place)

section Calls

variable (hprimary : ∀ draft ∈ drafts, draft.primary = true)
  (hrace : Race (Obeys e) s (drafts.map fun draft => (create user draft).run) history s' results)
include hprimary hrace

theorem script_of_race {place : Nat} (hdraft : drafts[place]? = some draft) :
    ∃ owner id new, castUuid (.text user) = .ok owner ∧
      results[place]? = some (.ok (newResume e new owner draft)) ∧
      turnsAt place history = createScript user draft id (newResume e new owner draft) := by
  obtain ⟨result, hresult, hplays, hgives⟩ := hrace.exists_result hdraft
  obtain ⟨owner, id, new, howner, hscript, rfl⟩ :=
    plays_create (hprimary draft (List.mem_of_getElem? hdraft)) hplays hgives
  exact ⟨owner, id, new, howner, hresult, hscript⟩

theorem isPart_of_race (howner : castUuid (.text user) = .ok owner) :
    ∀ turn ∈ history, IsPart e user owner drafts results turn := by
  intro turn hturn
  obtain ⟨draft, hdraft⟩ := hrace.exists_call hturn
  obtain ⟨owner', id, new, howner', hresult, hscript⟩ := script_of_race hprimary hrace hdraft
  cases howner.symm.trans howner'
  refine ⟨draft, id, new, hdraft, hprimary draft (List.mem_of_getElem? hdraft), hresult, ?_⟩
  rw [← hscript]
  exact exchange_mem_turnsAt hturn

theorem exists_script (hne : drafts ≠ []) :
    ∃ owner place draft id row, castUuid (.text user) = .ok owner ∧
      ∀ x ∈ createScript user draft id row, ⟨place, x⟩ ∈ history := by
  obtain ⟨first, hfirst⟩ : ∃ first, drafts[0]? = some first :=
    ⟨_, List.getElem?_eq_getElem (List.length_pos_iff.mpr hne)⟩
  obtain ⟨owner, id, new, howner, -, hscript⟩ := script_of_race hprimary hrace hfirst
  refine ⟨owner, 0, first, id, newResume e new owner first, howner, ?_⟩
  intro x hx
  rw [← hscript] at hx
  exact mem_turnsAt_iff.mp hx

theorem exists_demotes (hne : drafts ≠ []) : ∃ turn ∈ history, demotes turn := by
  obtain ⟨_, place, draft, id, row, -, hmem⟩ := exists_script hprimary hrace hne
  exact ⟨_, hmem _ List.mem_cons_self, by simp [demotes]⟩

theorem primaries_of_race (hne : drafts ≠ []) (howner : castUuid (.text user) = .ok owner) :
    (winners history).map (results[·]?) = (primaries owner s'.db).map fun row => some (.ok row) :=
  primaries_along howner hrace.along (isPart_of_race hprimary hrace howner) (exists_demotes hprimary hrace hne)

theorem exists_lastPointing (hne : drafts ≠ []) :
    ∃ last draft, lastPointing? history = some last ∧ drafts[last]? = some draft := by
  obtain ⟨_, place, draft, id, row, -, hmem⟩ := exists_script hprimary hrace hne
  have hpoints : (⟨place, ⟨.execute ⟨pointingText, [.text draft.fileUri, .text user]⟩, .ok []⟩⟩ : Turn) ∈
      history.filter points :=
    List.mem_filter.mpr ⟨hmem _ (List.mem_of_getLast? rfl), by simp [points]⟩
  have hlast := List.mem_of_mem_filter (List.getLast_mem (List.ne_nil_of_mem hpoints))
  obtain ⟨draft, hdraft⟩ := hrace.exists_call hlast
  refine ⟨_, draft, ?_, hdraft⟩
  rw [lastPointing?, List.getLast?_eq_some_getLast (List.ne_nil_of_mem hpoints)]
  rfl

theorem results_ok : ∀ result ∈ results, ∃ row, result = .ok row := by
  intro result hresult
  obtain ⟨place, hplace⟩ := List.mem_iff_getElem?.mp hresult
  have hlength := hrace.length_eq
  rw [List.length_map] at hlength
  have hlt := (List.getElem?_eq_some_iff.mp hplace).1
  obtain ⟨_, _, _, -, hrow, -⟩ :=
    script_of_race hprimary hrace (List.getElem?_eq_getElem (hlength ▸ hlt))
  exact ⟨_, Option.some.inj (hplace.symm.trans hrow)⟩

end Calls

/-- One resume is primary, and the profile points at its file. -/
def OnePrimary (owner : Value) (db : Database) : Prop :=
  ∃ resume, primaries owner db = [resume] ∧ PointsAt owner (resume.column "file_uri") db

/-- After a race of calls for primary resumes of one user, all have succeeded, and the primary resumes are
those that were inserted after the last demotion, of which there is at least one. The profile points at
the file of the call that pointed it last. So there is one primary resume if one insertion came after the
last demotion, and the profile points at it if the same call pointed the profile last. -/
theorem create_race {drafts : List Draft} {results : List (Except ServiceError Record)} (hne : drafts ≠ [])
    (hprimary : ∀ draft ∈ drafts, draft.primary = true)
    (hrace : Race (Obeys e) s (drafts.map fun draft => (create user draft).run) history s' results) :
    (∀ result ∈ results, ∃ row, result = .ok row) ∧
    ∃ owner last draft, castUuid (.text user) = .ok owner ∧ winners history ≠ [] ∧
      (winners history).map (results[·]?) = (primaries owner s'.db).map (fun row => some (.ok row)) ∧
      lastPointing? history = some last ∧ drafts[last]? = some draft ∧
      PointsAt owner (.text draft.fileUri) s'.db ∧ (winners history = [last] → OnePrimary owner s'.db) := by
  refine ⟨results_ok hprimary hrace, ?_⟩
  obtain ⟨owner, -, -, -, -, howner, -⟩ := exists_script hprimary hrace hne
  obtain ⟨last, draft, hlast, hdraft⟩ := exists_lastPointing hprimary hrace hne
  have hwinners := primaries_of_race hprimary hrace hne howner
  have hprofile := profile_along howner hrace.along (isPart_of_race hprimary hrace howner) hlast hdraft
  refine ⟨owner, last, draft, howner, ?_, hwinners, hlast, hdraft, hprofile, ?_⟩
  · apply winners_ne_nil (exists_demotes hprimary hrace hne)
    intro turn hturn
    obtain ⟨draft, hdraft⟩ := hrace.exists_call hturn
    obtain ⟨_, id, _, -, -, hscript⟩ := script_of_race hprimary hrace hdraft
    exact ⟨draft, id, _, hscript⟩
  · intro hone
    obtain ⟨_, _, new, howner', hresult, -⟩ := script_of_race hprimary hrace hdraft
    cases howner.symm.trans howner'
    rw [hone, List.map_singleton, hresult] at hwinners
    obtain ⟨resume, hresume, hrow⟩ := List.map_eq_singleton_iff.mp hwinners.symm
    refine ⟨resume, hresume, ?_⟩
    rw [Except.ok.inj (Option.some.inj hrow), (newResume_columns e new owner draft).2.2.1]
    exact hprofile

/-! ## Two calls that both demote first -/

theorem plays_createScript (hprimary : draft.primary = true) (id : String) (row : Record) :
    (create user draft).run.Plays (createScript user draft id row) (.ok row) := by
  unfold create
  rw [if_pos hprimary]
  refine .ask (.ask (.ask ?_))
  show ((if draft.primary = true then _ else _ : Service Record).run).Plays _ _
  rw [if_pos hprimary]
  exact .ask (.done _)

def firstDraft : Draft := ⟨"First", "first.pdf", "/uploads/first.pdf", true⟩

def secondDraft : Draft := ⟨"Second", "second.pdf", "/uploads/second.pdf", true⟩

/-- Storage in which one user has signed up. -/
def signedUp (user : String) : Storage := (Storage.empty "/uploads").set "users" [[("id", .text user)]]

theorem exists_overlap (e : Engine) (howner : castUuid (.text user) = .ok owner) :
    ∃ id id' row row' s',
      Race (Obeys e) (signedUp user) ([firstDraft, secondDraft].map fun draft => (create user draft).run)
        (inStep (createScript user firstDraft id row) (createScript user secondDraft id' row')) s'
        [.ok row, .ok row'] := by
  obtain ⟨one, two, hone, htwo, hnew⟩ := exists_two_ids
  let row := newResume e (.text one) owner firstDraft
  let row' := newResume e (.text two) owner secondDraft
  have halong : ∃ s', Along (Obeys e) (signedUp user)
      (inStep (createScript user firstDraft one row) (createScript user secondDraft two row')) s' :=
    ⟨_, .cons (obeys_demotion_iff.mpr ⟨owner, howner, rfl, rfl⟩) <|
      .cons (obeys_demotion_iff.mpr ⟨owner, howner, rfl, rfl⟩) <|
      .cons ⟨.freshId _ hone List.not_mem_nil, trivial⟩ <|
      .cons ⟨.freshId _ htwo hnew, trivial⟩ <|
      .cons (obeys_addition_iff.mpr ⟨_, owner, hone, howner, rfl, rfl⟩) <|
      .cons (obeys_addition_iff.mpr ⟨_, owner, htwo, howner, rfl, rfl⟩) <|
      .cons (obeys_pointing_iff.mpr ⟨owner, howner, rfl, rfl⟩) <|
      .cons (obeys_pointing_iff.mpr ⟨owner, howner, rfl, rfl⟩) (.nil _)⟩
  obtain ⟨s', halong⟩ := halong
  exact ⟨one, two, row, row', s', race_inStep rfl halong (plays_createScript rfl one row)
    (plays_createScript rfl two row')⟩

theorem winners_overlap (id id' : String) (row row' : Record) :
    winners (inStep (createScript user firstDraft id row) (createScript user secondDraft id' row')) = [0, 1] := by
  obtain ⟨hda, hdp, hap⟩ := texts_ne
  simp [winners, inStep, createScript, List.rtakeWhile, demotes, inserts, hda.symm, hdp.symm, hap.symm]

/-- Two calls that both demote before either inserts. -/
theorem create_race_overlap :
    ∃ user s s' history results, [firstDraft, secondDraft] ≠ [] ∧
      (∀ draft ∈ [firstDraft, secondDraft], draft.primary = true) ∧
      Race (Obeys .plain) s ([firstDraft, secondDraft].map fun draft => (create user draft).run) history s'
        results ∧
      (∀ result ∈ results, ∃ row, result = .ok row) ∧
      ∃ owner last draft, castUuid (.text user) = .ok owner ∧ winners history ≠ [] ∧
        (winners history).map (results[·]?) = (primaries owner s'.db).map (fun row => some (.ok row)) ∧
        lastPointing? history = some last ∧ [firstDraft, secondDraft][last]? = some draft ∧
        PointsAt owner (.text draft.fileUri) s'.db ∧ (winners history = [last] → OnePrimary owner s'.db) := by
  let user := Uuid.print (List.replicate 32 7)
  have howner : castUuid (.text user) = .ok (.text user) := castUuid_replicate (by decide)
  obtain ⟨id, id', row, row', s', hrace⟩ := exists_overlap .plain howner
  have hne : [firstDraft, secondDraft] ≠ [] := List.cons_ne_nil _ _
  have hprimary : ∀ draft ∈ [firstDraft, secondDraft], draft.primary = true := by decide
  exact ⟨user, _, s', _, _, hne, hprimary, hrace, create_race hne hprimary hrace⟩

/-- The resumes of both calls are primary. -/
theorem create_race_two_primaries :
    ¬ ∀ (e : Engine) (user : String) (drafts : List Draft) (s s' : Storage) (history : List Turn)
      (results : List (Except ServiceError Record)), drafts ≠ [] → (∀ draft ∈ drafts, draft.primary = true) →
      Race (Obeys e) s (drafts.map fun draft => (create user draft).run) history s' results →
        ∃ owner, castUuid (.text user) = .ok owner ∧ OnePrimary owner s'.db := by
  intro law
  let user := Uuid.print (List.replicate 32 7)
  have howner : castUuid (.text user) = .ok (.text user) := castUuid_replicate (by decide)
  obtain ⟨id, id', row, row', s', hrace⟩ := exists_overlap .plain howner
  have hprimary : ∀ draft ∈ [firstDraft, secondDraft], draft.primary = true := by decide
  obtain ⟨owner, howner', resume, hresume, -⟩ := law _ _ _ _ _ _ _ (List.cons_ne_nil _ _) hprimary hrace
  cases howner.symm.trans howner'
  have hwinners := primaries_of_race hprimary hrace (List.cons_ne_nil _ _) howner
  rw [winners_overlap, hresume] at hwinners
  exact absurd (congrArg List.length hwinners) (by simp)

end Race

end JobTrail.Resume
