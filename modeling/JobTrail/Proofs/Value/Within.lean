import JobTrail.Proofs.Value.Record

/-!
# Values inside values

`Within w v` says that `w` stands somewhere in `v`, at any depth. A property of a value at every depth
is said with it once and comes apart at records and sequences by one lemma each. Distinct keys are
such a property: every reader and every operation on records keeps them, so it is what a value that a
request or a row carries can be taken to have.
-/

namespace JobTrail.Value

/-- Induction over a value through the values that it holds. -/
@[elab_as_elim] theorem nestedInduction {motive : Value → Prop} (null : motive null)
    (bool : ∀ b, motive (bool b)) (number : ∀ n, motive (number n)) (text : ∀ s, motive (text s))
    (instant : ∀ t, motive (instant t))
    (record : ∀ entries : Record, (∀ e ∈ entries, motive e.2) → motive (record entries))
    (sequence : ∀ items, (∀ v ∈ items, motive v) → motive (sequence items)) (v : Value) : motive v := by
  refine @Value.rec motive (fun entries => ∀ e ∈ entries, motive e.2)
    (fun items => ∀ v ∈ items, motive v) (fun e => motive e.2)
    null bool number text instant record sequence ?_ ?_ ?_ ?_ (fun _ _ ih => ih) v
  · intro e he
    cases he
  · intro e rest he hrest d hd
    rcases List.mem_cons.mp hd with rfl | hd
    · exact he
    · exact hrest d hd
  · intro e he
    cases he
  · intro w rest hw hrest d hd
    rcases List.mem_cons.mp hd with rfl | hd
    · exact hw
    · exact hrest d hd

/-- `Within w v`: the value `w` stands in `v`, at some depth. -/
inductive Within : Value → Value → Prop where
  | here (v : Value) : Within v v
  | entry {w v : Value} {r : Record} {key : String} : (key, v) ∈ r → Within w v → Within w (record r)
  | item {w v : Value} {items : List Value} : v ∈ items → Within w v → Within w (sequence items)

theorem within_record_iff {w : Value} {r : Record} :
    Within w (record r) ↔ w = record r ∨ ∃ e ∈ r, Within w e.2 := by
  constructor
  · intro h
    cases h with
    | here => exact .inl rfl
    | entry hmem hw => exact .inr ⟨_, hmem, hw⟩
  · rintro (rfl | ⟨e, hmem, hw⟩)
    · exact .here _
    · exact .entry hmem hw

theorem within_sequence_iff {w : Value} {items : List Value} :
    Within w (sequence items) ↔ w = sequence items ∨ ∃ v ∈ items, Within w v := by
  constructor
  · intro h
    cases h with
    | here => exact .inl rfl
    | item hmem hw => exact .inr ⟨_, hmem, hw⟩
  · rintro (rfl | ⟨v, hmem, hw⟩)
    · exact .here _
    · exact .item hmem hw

/-! ## Properties at every depth -/

/-- No instant at any depth. -/
def InstantFree (v : Value) : Prop := ∀ t, ¬ Within (instant t) v

/-- Every key of every record at any depth satisfies `P`. -/
def AllKeys (P : String → Prop) (v : Value) : Prop :=
  ∀ r : Record, Within (record r) v → ∀ key ∈ r.keys, P key

/-- The keys of every record at any depth are distinct. -/
def Distinct (v : Value) : Prop := ∀ r : Record, Within (record r) v → r.keys.Nodup

variable {P : String → Prop} {r : Record} {items : List Value}

theorem instantFree_record_iff : InstantFree (record r) ↔ ∀ e ∈ r, InstantFree e.2 := by
  simp only [InstantFree, within_record_iff, reduceCtorEq, false_or, not_exists, not_and]
  exact ⟨fun h e he t => h t e he, fun h t e he => h e he t⟩

theorem instantFree_sequence_iff : InstantFree (sequence items) ↔ ∀ v ∈ items, InstantFree v := by
  simp only [InstantFree, within_sequence_iff, reduceCtorEq, false_or, not_exists, not_and]
  exact ⟨fun h v hv t => h t v hv, fun h t v hv => h v hv t⟩

theorem allKeys_record_iff :
    AllKeys P (record r) ↔ (∀ key ∈ r.keys, P key) ∧ ∀ e ∈ r, AllKeys P e.2 := by
  simp only [AllKeys, within_record_iff, record.injEq]
  constructor
  · intro h
    exact ⟨h r (.inl rfl), fun e he s hs => h s (.inr ⟨e, he, hs⟩)⟩
  · rintro ⟨hkeys, hentries⟩ s (rfl | ⟨e, he, hs⟩)
    · exact hkeys
    · exact hentries e he s hs

theorem allKeys_sequence_iff : AllKeys P (sequence items) ↔ ∀ v ∈ items, AllKeys P v := by
  simp only [AllKeys, within_sequence_iff, reduceCtorEq, false_or]
  exact ⟨fun h v hv s hs => h s ⟨v, hv, hs⟩, fun h s ⟨v, hv, hs⟩ => h v hv s hs⟩

theorem distinct_record_iff : Distinct (record r) ↔ r.keys.Nodup ∧ ∀ e ∈ r, Distinct e.2 := by
  simp only [Distinct, within_record_iff, record.injEq]
  constructor
  · intro h
    exact ⟨h r (.inl rfl), fun e he s hs => h s (.inr ⟨e, he, hs⟩)⟩
  · rintro ⟨hkeys, hentries⟩ s (rfl | ⟨e, he, hs⟩)
    · exact hkeys
    · exact hentries e he s hs

theorem distinct_sequence_iff : Distinct (sequence items) ↔ ∀ v ∈ items, Distinct v := by
  simp only [Distinct, within_sequence_iff, reduceCtorEq, false_or]
  exact ⟨fun h v hv s hs => h s ⟨v, hv, hs⟩, fun h s ⟨v, hv, hs⟩ => h v hv s hs⟩

theorem allKeys_text (s : String) : AllKeys P (text s) := fun _ h => nomatch h

theorem allKeys_instant (t : Instant) : AllKeys P (instant t) := fun _ h => nomatch h

theorem distinct_bool (b : Bool) : Distinct (bool b) := fun _ h => nomatch h

theorem distinct_number (n : Number) : Distinct (number n) := fun _ h => nomatch h

theorem distinct_text (s : String) : Distinct (text s) := fun _ h => nomatch h

theorem distinct_instant (t : Instant) : Distinct (instant t) := fun _ h => nomatch h

/-! ## Transcoding, one level at a time -/

variable (spelling : Spelling)

theorem transcodeEntries_eq_map (entries : List (String × Value)) :
    transcodeEntries spelling entries
      = entries.map fun e => (spelling.rename e.1, e.2.transcode spelling) := by
  induction entries with
  | nil => rfl
  | cons e rest ih =>
    obtain ⟨k, v⟩ := e
    simp [transcodeEntries, ih]

theorem transcodeItems_eq_map (items : List Value) :
    transcodeItems spelling items = items.map (transcode spelling) := by
  induction items with
  | nil => rfl
  | cons v rest ih => simp [transcodeItems, ih]

theorem transcode_record (r : Record) :
    (record r).transcode spelling
      = record (Record.ofList (r.map fun e => (spelling.rename e.1, e.2.transcode spelling))) := by
  rw [transcode, transcodeEntries_eq_map]

theorem transcode_sequence (items : List Value) :
    (sequence items).transcode spelling = sequence (items.map (transcode spelling)) := by
  rw [transcode, transcodeItems_eq_map]

end JobTrail.Value
