import JobTrail.Proofs.Value.Within
import JobTrail.Value.Edit

/-!
# Records over a run of edits

A record that is edited in place is the map that its history tells. The history is a list of events, each of
which writes a key, drops one or clears the record: an edit that replaces all entries clears the record and
writes the new ones in order. Every record is what its history leaves when it is replayed, so it is enough to
follow one event. At each key stands what was last written there, and the keys stand in the order in which
they came: the event that brought a key is the one that wrote it when it was absent, and a later write to it
does not count.
-/

namespace JobTrail.Record

/-! ## Histories -/

/-- What happens to the keys of a record. -/
inductive Event where
  | written (key : String) (v : Value)
  | dropped (key : String)
  | cleared

namespace Event

def Writes (e : Event) (key : String) : Prop := ∃ v, e = written key v

def Removes (e : Event) (key : String) : Prop := e = dropped key ∨ e = cleared

theorem not_removes_written (k : String) (v : Value) (key : String) : ¬ (written k v).Removes key := by
  simp [Removes]

theorem writes_written_iff {k key : String} {v : Value} : (written k v).Writes key ↔ k = key := by
  simp [Writes]

end Event

variable {log : List Event} {e : Event} {key : String} {v : Value} {i : Nat}

/-- The last event about the key writes this value to it. -/
def LastWritten (log : List Event) (key : String) (v : Value) : Prop :=
  ∃ before after, log = before ++ .written key v :: after ∧ ∀ e ∈ after, ¬ e.Writes key ∧ ¬ e.Removes key

def Present (log : List Event) (key : String) : Prop := ∃ v, LastWritten log key v

/-- Event number `i` wrote the key when it was absent, and it has been present since. -/
def PresentSince (log : List Event) (key : String) (i : Nat) : Prop :=
  ∃ before v after, log = before ++ .written key v :: after ∧ before.length = i ∧
    ¬ Present before key ∧ ∀ e ∈ after, ¬ e.Removes key

/-! ### One more event -/

theorem concat_eq_split_iff {α : Type} {l before after : List α} {a b : α} :
    l ++ [a] = before ++ b :: after ↔
      (after = [] ∧ before = l ∧ b = a) ∨ ∃ rest, after = rest ++ [a] ∧ l = before ++ b :: rest := by
  constructor
  · intro h
    rcases List.eq_nil_or_concat after with rfl | ⟨rest, c, rfl⟩
    · obtain ⟨hl, ha⟩ := List.append_inj' h rfl
      simp only [List.cons.injEq, and_true] at ha
      exact .inl ⟨rfl, hl.symm, ha.symm⟩
    · rw [List.concat_eq_append, ← List.cons_append, ← List.append_assoc] at h
      obtain ⟨hl, ha⟩ := List.append_inj' h rfl
      simp only [List.cons.injEq, and_true] at ha
      exact .inr ⟨rest, by rw [List.concat_eq_append, ha], hl⟩
  · rintro (⟨rfl, rfl, rfl⟩ | ⟨rest, rfl, rfl⟩)
    · rfl
    · simp

theorem lastWritten_concat_iff :
    LastWritten (log ++ [e]) key v ↔
      e = .written key v ∨ (¬ e.Writes key ∧ ¬ e.Removes key ∧ LastWritten log key v) := by
  constructor
  · intro ⟨before, after, hlog, hafter⟩
    rcases concat_eq_split_iff.mp hlog with ⟨-, -, hlast⟩ | ⟨rest, rfl, hbefore⟩
    · exact .inl hlast.symm
    · obtain ⟨hwrites, hremoves⟩ := hafter e (by simp)
      exact .inr ⟨hwrites, hremoves, before, rest, hbefore, fun d hd => hafter d (by simp [hd])⟩
  · intro h
    rcases h with rfl | ⟨hwrites, hremoves, before, after, rfl, hafter⟩
    · exact ⟨log, [], rfl, by simp⟩
    · refine ⟨before, after ++ [e], by simp, fun d hd => ?_⟩
      rcases List.mem_append.mp hd with hd | hd
      · exact hafter d hd
      · rw [List.mem_singleton.mp hd]
        exact ⟨hwrites, hremoves⟩

theorem presentSince_concat_iff :
    PresentSince (log ++ [e]) key i ↔
      (e.Writes key ∧ ¬ Present log key ∧ i = log.length) ∨ (¬ e.Removes key ∧ PresentSince log key i) := by
  constructor
  · intro ⟨before, v, after, hlog, hi, habsent, hafter⟩
    rcases concat_eq_split_iff.mp hlog with ⟨-, rfl, hlast⟩ | ⟨rest, rfl, hbefore⟩
    · exact .inl ⟨⟨v, hlast.symm⟩, habsent, hi.symm⟩
    · exact .inr ⟨hafter e (by simp), before, v, rest, hbefore, hi, habsent,
        fun d hd => hafter d (by simp [hd])⟩
  · intro h
    rcases h with ⟨⟨v, rfl⟩, habsent, rfl⟩ | ⟨hremoves, before, v, after, rfl, hi, habsent, hafter⟩
    · exact ⟨log, v, [], rfl, rfl, habsent, by simp⟩
    · refine ⟨before, v, after ++ [e], by simp, hi, habsent, fun d hd => ?_⟩
      rcases List.mem_append.mp hd with hd | hd
      · exact hafter d hd
      · rw [List.mem_singleton.mp hd]
        exact hremoves

theorem PresentSince.lt_length (h : PresentSince log key i) : i < log.length := by
  obtain ⟨before, v, after, rfl, rfl, -, -⟩ := h
  simp

/-! ## What a history leaves -/

variable {r : Record}

/-- The record is the ordered map that the history tells. -/
structure Tells (log : List Event) (r : Record) : Prop where
  distinct : r.keys.Nodup
  value : ∀ key v, r.get? key = some v ↔ LastWritten log key v
  since : ∀ key, key ∈ r.keys ↔ ∃ i, PresentSince log key i
  order : r.keys.Pairwise fun a b => ∀ i j, PresentSince log a i → PresentSince log b j → i < j

theorem tells_nil : Tells [] [] := by
  constructor
  · exact List.nodup_nil
  · intro key v
    simp [LastWritten]
  · intro key
    simp [PresentSince]
  · exact .nil

namespace Tells

variable {a b k : String} (h : r.Tells log)
include h

theorem present_iff : Present log key ↔ key ∈ r.keys := by
  rw [Present, mem_keys_iff]
  constructor
  · intro ⟨v, hv⟩
    exact ⟨v, mem_of_get?_eq_some ((h.value key v).mpr hv)⟩
  · intro ⟨v, hv⟩
    exact ⟨v, (h.value key v).mp (get?_eq_some_of_mem h.distinct hv)⟩

/-- One more event does not change since when a present key has been there. -/
theorem since_of_concat (ha : a ∈ r.keys) (hi : PresentSince (log ++ [e]) a i) : PresentSince log a i := by
  rcases presentSince_concat_iff.mp hi with ⟨-, habsent, -⟩ | ⟨-, hi⟩
  · exact absurd (h.present_iff.mpr ha) habsent
  · exact hi

theorem order_concat {keys : List String} (hkeys : keys.Sublist r.keys) :
    keys.Pairwise fun a b => ∀ i j, PresentSince (log ++ [e]) a i → PresentSince (log ++ [e]) b j → i < j := by
  apply (h.order.sublist hkeys).imp_of_mem
  intro a b ha hb hab i j hi hj
  exact hab i j (h.since_of_concat (hkeys.subset ha) hi) (h.since_of_concat (hkeys.subset hb) hj)

/-! ### One event at a time -/

theorem insert (k : String) (v : Value) : (r.insert k v).Tells (log ++ [.written k v]) := by
  constructor
  · exact nodup_insert h.distinct k v
  · intro key w
    rw [get?_insert, lastWritten_concat_iff, Event.writes_written_iff]
    by_cases hk : k = key
    · simp [hk]
    · simp [hk, Event.not_removes_written, h.value]
  · intro key
    rw [mem_keys_insert]
    simp only [presentSince_concat_iff, Event.writes_written_iff, Event.not_removes_written, not_false_eq_true,
      true_and, h.present_iff]
    constructor
    · intro hkey
      by_cases hold : key ∈ r.keys
      · obtain ⟨i, hi⟩ := (h.since key).mp hold
        exact ⟨i, .inr hi⟩
      · have hk : k = key := (hkey.resolve_left hold).symm
        exact ⟨log.length, .inl ⟨hk, hold, rfl⟩⟩
    · intro ⟨i, hi⟩
      rcases hi with ⟨hk, -, -⟩ | hi
      · exact .inr hk.symm
      · exact .inl ((h.since key).mpr ⟨i, hi⟩)
  · rw [keys_insert]
    split
    · exact h.order_concat (List.Sublist.refl _)
    · rename_i hk
      refine List.pairwise_append.mpr ⟨h.order_concat (List.Sublist.refl _), List.pairwise_singleton _ _, ?_⟩
      intro a ha b hb i j hi hj
      rw [List.mem_singleton.mp hb] at hj
      have hbefore := (h.since_of_concat ha hi).lt_length
      rcases presentSince_concat_iff.mp hj with ⟨-, -, hlast⟩ | ⟨-, hj⟩
      · omega
      · exact absurd ((h.since k).mpr ⟨j, hj⟩) hk

theorem erase (k : String) : (r.erase k).Tells (log ++ [.dropped k]) := by
  have hwrites : ∀ key, ¬ (Event.dropped k).Writes key := by simp [Event.Writes]
  have hremoves : ∀ key, (Event.dropped k).Removes key ↔ k = key := by simp [Event.Removes]
  constructor
  · rw [keys_erase]
    exact h.distinct.erase k
  · intro key v
    simp only [lastWritten_concat_iff, hwrites, hremoves, reduceCtorEq, not_false_eq_true, true_and, false_or]
    by_cases hk : k = key
    · subst hk
      have hnone := get?_eq_none_iff.mpr (notMem_keys_erase h.distinct k)
      simp [hnone]
    · simp [get?_erase_of_ne hk, h.value, hk]
  · intro key
    simp only [presentSince_concat_iff, hwrites, hremoves, false_and, false_or, exists_and_left, ← h.since]
    rw [keys_erase, h.distinct.mem_erase_iff]
    exact and_congr_left fun _ => ne_comm
  · rw [keys_erase]
    exact h.order_concat List.erase_sublist

omit h in
theorem clear : Tells (log ++ [.cleared]) [] := by
  have hwrites : ∀ key, ¬ Event.cleared.Writes key := by simp [Event.Writes]
  have hremoves : ∀ key, Event.cleared.Removes key := by simp [Event.Removes]
  constructor
  · exact List.nodup_nil
  · intro key v
    simp [lastWritten_concat_iff, hremoves]
  · intro key
    simp [presentSince_concat_iff, hwrites, hremoves]
  · exact .nil

end Tells

/-! ## Replaying a history -/

def Event.apply (r : Record) : Event → Record
  | written k v => r.insert k v
  | dropped k => r.erase k
  | cleared => []

theorem Tells.apply (h : r.Tells log) (e : Event) : (e.apply r).Tells (log ++ [e]) := by
  cases e with
  | written k v => exact h.insert k v
  | dropped k => exact h.erase k
  | cleared => exact .clear

theorem Tells.replay (h : r.Tells log) (events : List Event) :
    (events.foldl Event.apply r).Tells (log ++ events) := by
  induction events generalizing r log with
  | nil =>
    rw [List.append_nil]
    exact h
  | cons e events ih =>
    rw [List.foldl_cons, ← List.singleton_append, ← List.append_assoc]
    exact ih (h.apply e)

/-- The events that write entries in order. -/
def writes (entries : List (String × Value)) : List Event := entries.map fun e => .written e.1 e.2

/-- What an edit does to a record. Respelling takes every entry out and writes it again under its new key. -/
def events (r : Record) : Edit → List Event
  | .insert key v => [.written key v]
  | .remove key => [.dropped key]
  | .get _ | .contains _ => []
  | .collect entries => .cleared :: writes entries
  | .respell spelling =>
    .cleared :: writes (r.map fun e => (spelling.rename e.1, e.2.transcode spelling))
  | .drain => [.cleared]

theorem replay_writes (entries : List (String × Value)) :
    (Event.cleared :: writes entries).foldl Event.apply r = ofList entries := by
  rw [List.foldl_cons, writes, List.foldl_map]
  rfl

theorem respell_eq (r : Record) (s : Spelling) :
    r.respell s = ofList (r.map fun e => (s.rename e.1, e.2.transcode s)) := by
  cases s with
  | camel => rfl
  | snake => rw [respell, toSnake, Value.transcodeEntries_eq_map]

theorem exchange_eq (r : Record) (key : String) (v : Value) :
    r.exchange key v = (r.get? key, r.insert key v) := by
  induction r with
  | nil => rfl
  | cons e rest ih =>
    obtain ⟨k, old⟩ := e
    rw [exchange, insert, get?_cons]
    by_cases hk : k = key
    · rw [if_pos hk, if_pos hk, if_pos hk]
    · rw [if_neg hk, if_neg hk, if_neg hk, ih]

theorem withdraw_eq (r : Record) (key : String) : r.withdraw key = (r.get? key, r.erase key) := by
  induction r with
  | nil => rfl
  | cons e rest ih =>
    obtain ⟨k, v⟩ := e
    rw [withdraw, get?_cons, erase]
    by_cases hk : k = key
    · simp [hk]
    · rw [if_neg hk, if_neg hk, ih, erase]
      simp [hk]

/-- An edit leaves what the replay of its events leaves. -/
theorem edit_snd (r : Record) (edit : Edit) : (r.edit edit).2 = (r.events edit).foldl Event.apply r := by
  cases edit with
  | insert key v => rw [Record.edit, exchange_eq]; rfl
  | remove key => rw [Record.edit, withdraw_eq]; rfl
  | get key => rfl
  | contains key => rfl
  | collect entries => exact (replay_writes entries).symm
  | respell spelling => exact (respell_eq r spelling).trans (replay_writes _).symm
  | drain => rfl

/-- What some edits do to a record, one after the other. -/
def history : Record → List Edit → List Event
  | _, [] => []
  | r, edit :: rest => events r edit ++ history (r.edit edit).2 rest

theorem foldl_edit_eq (r : Record) (edits : List Edit) :
    edits.foldl (fun r e => (r.edit e).2) r = (history r edits).foldl Event.apply r := by
  induction edits generalizing r with
  | nil => rfl
  | cons edit rest ih => rw [List.foldl_cons, ih, history, List.foldl_append, ← edit_snd]

/-- A record that is edited from the start is the ordered map that the history of the edits tells. -/
theorem run_tells (edits : List Edit) : (run edits).Tells (history [] edits) := by
  rw [run, foldl_edit_eq]
  exact tells_nil.replay (history [] edits)

/-! ## What an edit answers -/

theorem contains_eq (r : Record) (key : String) : r.contains key = (r.get? key).isSome := by
  induction r with
  | nil => rfl
  | cons e rest ih =>
    obtain ⟨k, v⟩ := e
    rw [contains] at ih ⊢
    by_cases hk : k = key
    · simp [get?_cons, hk]
    · simp [get?_cons, hk, ih]

/-- Without its entry the others stand as they stood. -/
theorem erase_eq_filter (distinct : r.keys.Nodup) (key : String) : r.erase key = r.filter (·.1 ≠ key) := by
  induction r with
  | nil => rfl
  | cons e rest ih =>
    obtain ⟨k, v⟩ := e
    obtain ⟨hk, hrest⟩ := List.nodup_cons.mp distinct
    rw [erase] at ih ⊢
    by_cases hkey : k = key
    · subst hkey
      have hothers : ∀ e ∈ rest, e.1 ≠ k := fun e he heq => hk (heq ▸ mem_keys_of_mem he)
      simp only [decide_true, List.eraseP_cons_of_pos, ne_eq, not_true_eq_false, decide_false,
        Bool.false_eq_true, not_false_eq_true, List.filter_cons_of_neg]
      exact (List.filter_eq_self.mpr fun e he => by simpa using hothers e he).symm
    · simp [hkey, ih hrest]

/-- After every run of edits the record is the ordered map that its history tells, each edit answers what stood
at its key, a removal leaves the others in their places, and the drained entries make the same record again. -/
theorem edits_keep_order (edits : List Edit) :
    (run edits).Tells (history [] edits) ∧
    (∀ key, (run edits).edit (.get key) = (.found ((run edits).get? key), run edits) ∧
      (run edits).edit (.contains key) = (.present ((run edits).get? key).isSome, run edits)) ∧
    (∀ key v, ((run edits).edit (.insert key v)).1 = .found ((run edits).get? key)) ∧
    (∀ key, (run edits).edit (.remove key) =
      (.found ((run edits).get? key), (run edits).filter (·.1 ≠ key))) ∧
    ∃ entries, (run edits).edit .drain = (.drained entries, []) ∧
      Record.edit [] (.collect entries) = (.done, run edits) := by
  have htells := run_tells edits
  refine ⟨htells, fun key => ⟨rfl, ?_⟩, fun key v => ?_, fun key => ?_, run edits, rfl, ?_⟩
  · rw [Record.edit, contains_eq]
  · rw [Record.edit, exchange_eq]
  · rw [Record.edit, withdraw_eq, erase_eq_filter htells.distinct]
  · rw [Record.edit, ofList_of_nodup htells.distinct]

/-- A key that left and came back stands behind those that stayed; one that was written again keeps its place. -/
example :
    run [.insert "status" (.text "Applied"), .insert "notes" .null, .insert "company" (.text "Acme"),
        .remove "status", .insert "notes" (.text "call"), .insert "status" (.text "Offer")]
      = [("notes", .text "call"), ("company", .text "Acme"), ("status", .text "Offer")] := by
  decide

end JobTrail.Record
