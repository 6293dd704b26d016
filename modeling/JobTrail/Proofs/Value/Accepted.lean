import JobTrail.Proofs.Value.Doubles
import JobTrail.Proofs.Value.Reading

/-!
# What the reader accepts

A value that was read can be written and read again: its keys are distinct, no instant stands in it, its
numbers read back, and it is no deeper than the limit. The invariant of the second pass says how much room a
stack of open brackets leaves: a value inside the innermost one has to fit into it, and closing the bracket
takes one level more.
-/

namespace JobTrail

namespace Value

variable {r : Record} {items : List Value} {room : Nat} {v : Value}

/-- What the reader gives when it may go `room` levels deep. -/
structure Fits (room : Nat) (v : Value) : Prop where
  distinct : v.Distinct
  instantFree : v.InstantFree
  numbers : v.NumbersReadBack
  depth : v.depth ≤ room

theorem fits_record_iff : (record r).Fits (room + 1) ↔ r.keys.Nodup ∧ ∀ e ∈ r, e.2.Fits room := by
  constructor
  · intro h
    obtain ⟨hkeys, hdistinct⟩ := distinct_record_iff.mp h.distinct
    refine ⟨hkeys, fun e he => ⟨hdistinct e he, ?_, ?_, ?_⟩⟩
    · exact instantFree_record_iff.mp h.instantFree e he
    · exact numbersReadBack_record_iff.mp h.numbers e he
    · exact depth_record_le_iff.mp h.depth e he
  · intro ⟨hkeys, hentries⟩
    constructor
    · exact distinct_record_iff.mpr ⟨hkeys, fun e he => (hentries e he).distinct⟩
    · exact instantFree_record_iff.mpr fun e he => (hentries e he).instantFree
    · exact numbersReadBack_record_iff.mpr fun e he => (hentries e he).numbers
    · exact depth_record_le_iff.mpr fun e he => (hentries e he).depth

theorem fits_sequence_iff : (sequence items).Fits (room + 1) ↔ ∀ v ∈ items, v.Fits room := by
  constructor
  · intro h v hv
    constructor
    · exact distinct_sequence_iff.mp h.distinct v hv
    · exact instantFree_sequence_iff.mp h.instantFree v hv
    · exact numbersReadBack_sequence_iff.mp h.numbers v hv
    · exact depth_sequence_le_iff.mp h.depth v hv
  · intro h
    constructor
    · exact distinct_sequence_iff.mpr fun v hv => (h v hv).distinct
    · exact instantFree_sequence_iff.mpr fun v hv => (h v hv).instantFree
    · exact numbersReadBack_sequence_iff.mpr fun v hv => (h v hv).numbers
    · exact depth_sequence_le_iff.mpr fun v hv => (h v hv).depth

/-- Values that are not nested fit everywhere. -/
theorem fits_null : null.Fits room :=
  ⟨fun _ h => (nomatch h), fun _ h => (nomatch h), fun _ h => (nomatch h), Nat.zero_le _⟩

theorem fits_bool (b : Bool) : (bool b).Fits room :=
  ⟨fun _ h => (nomatch h), fun _ h => (nomatch h), fun _ h => (nomatch h), Nat.zero_le _⟩

theorem fits_text (s : String) : (text s).Fits room :=
  ⟨fun _ h => (nomatch h), fun _ h => (nomatch h), fun _ h => (nomatch h), Nat.zero_le _⟩

theorem fits_number {n : Number} (h : n.ReadsBack) : (number n).Fits room :=
  ⟨fun _ h => (nomatch h), fun _ h => (nomatch h), numbersReadBack_number_iff.mpr h, Nat.zero_le _⟩

/-- A change of spelling goes no deeper and makes no number up. -/
theorem Fits.transcode (s : Spelling) (v : Value) : ∀ room, v.Fits room → (v.transcode s).Fits room := by
  induction v using nestedInduction with
  | instant t => exact fun room h => absurd (.here _) (h.instantFree t)
  | record r ih =>
    intro room h
    -- A record is a level of its own, so nothing but its entries has to fit below.
    cases room with
    | zero => exact absurd h.depth (Nat.not_succ_le_zero _)
    | succ room =>
      obtain ⟨-, hentries⟩ := fits_record_iff.mp h
      rw [transcode_record, fits_record_iff]
      refine ⟨Record.keys_ofList_nodup _, fun e he => ?_⟩
      obtain ⟨d, hd, rfl⟩ := List.mem_map.mp (Record.mem_of_mem_ofList he)
      exact ih d hd room (hentries d hd)
  | sequence items ih =>
    intro room h
    cases room with
    | zero => exact absurd h.depth (Nat.not_succ_le_zero _)
    | succ room =>
      have hitems := fits_sequence_iff.mp h
      rw [transcode_sequence, fits_sequence_iff]
      exact List.forall_mem_map.mpr fun v hv => ih v hv room (hitems v hv)
  | _ => exact fun _ h => h

theorem Fits.readable (h : v.Fits Json.depthLimit) : v.Readable := ⟨h.distinct, h.numbers, h.depth⟩

end Value

namespace Json

/-! ## Tokens -/

/-- A scalar of a sound token fits wherever it may stand. -/
def Token.Sound : Token → Prop
  | .scalar v => ∀ room, v.Fits room
  | _ => True

theorem number?_wellFormed {x : Numeral} {n : Number} (h : x.number? = some n) : n.WellFormed := by
  unfold Numeral.number? at h
  dsimp only at h
  generalize (if x.negative then -(digitsValue 0 x.whole : Int) else digitsValue 0 x.whole) = signed at h
  split at h
  · rename_i hint
    cases h
    exact hint.2.2.2
  · split at h
    · rename_i hfinite
      cases h
      exact hfinite
    · cases h

theorem sound_numeralValue? {cs : List Char} {v : Value} (h : numeralValue? cs = some v) : (Token.scalar v).Sound := by
  obtain ⟨n, hn, rfl⟩ := Option.map_eq_some_iff.mp h
  obtain ⟨x, -, hx⟩ := Option.bind_eq_some_iff.mp hn
  exact fun room => Value.fits_number (Number.readsBack (number?_wellFormed hx))

theorem sound_wordValue? {cs : List Char} {v : Value} (h : wordValue? cs = some v) : (Token.scalar v).Sound := by
  unfold wordValue? at h
  split at h
  · cases h
    exact fun room => Value.fits_null
  · cases h
    exact fun room => Value.fits_bool true
  · cases h
    exact fun room => Value.fits_bool false
  · cases h

theorem sound_scanGap {c : Char} {scan : Scan} {tokens : List Token} (h : scanGap c = some (scan, tokens)) :
    ∀ t ∈ tokens, t.Sound := by
  unfold scanGap at h
  split at h
  case h_12 =>
    split at h
    · cases h
      simp
    split at h
    · cases h
      simp
    · cases h
  all_goals
    cases h
    simp [Token.Sound]

theorem sound_scanAfter {v : Option Value} {c : Char} {scan : Scan} {tokens : List Token}
    (hv : ∀ w ∈ v, (Token.scalar w).Sound) (h : scanAfter v c = some (scan, tokens)) : ∀ t ∈ tokens, t.Sound := by
  unfold scanAfter at h
  obtain ⟨w, hw, h⟩ := Option.bind_eq_some_iff.mp h
  obtain ⟨⟨next, rest⟩, hgap, h⟩ := Option.bind_eq_some_iff.mp h
  cases h
  exact List.forall_mem_cons.mpr ⟨hv w hw, sound_scanGap hgap⟩

theorem sound_scanChar {scan next : Scan} {c : Char} {tokens : List Token}
    (h : scanChar scan c = some (next, tokens)) : ∀ t ∈ tokens, t.Sound := by
  cases scan with
  | gap => exact sound_scanGap h
  | word cs =>
    rw [scanChar] at h
    split at h
    · cases h
      simp
    · exact sound_scanAfter (fun w hw => sound_wordValue? hw) h
  | numeral cs =>
    rw [scanChar] at h
    split at h
    · cases h
      simp
    · exact sound_scanAfter (fun w hw => sound_numeralValue? hw) h
  | string cs =>
    rw [scanChar] at h
    split at h
    · cases h
      exact List.forall_mem_singleton.mpr fun room => Value.fits_text _
    split at h
    · cases h
      simp
    split at h
    · cases h
    · cases h
      simp
  | escape cs =>
    obtain ⟨_, -, h⟩ := Option.map_eq_some_iff.mp h
    cases h
    simp
  | code cs high value missing =>
    rw [scanChar] at h
    obtain ⟨digit, -, h⟩ := Option.bind_eq_some_iff.mp h
    dsimp only at h
    split at h
    · obtain ⟨_, -, h⟩ := Option.bind_eq_some_iff.mp h
      cases h
      simp
    · cases h
      simp
  | pairEscape cs high =>
    rw [scanChar] at h
    split at h
    · cases h
      simp
    · cases h
  | pairMark cs high =>
    rw [scanChar] at h
    split at h
    · cases h
      simp
    · cases h

theorem sound_scanEnd {scan : Scan} {tokens : List Token} (h : scanEnd scan = some tokens) :
    ∀ t ∈ tokens, t.Sound := by
  cases scan with
  | gap =>
    cases h
    simp
  | word cs =>
    obtain ⟨v, hv, rfl⟩ := Option.map_eq_some_iff.mp h
    exact List.forall_mem_singleton.mpr (sound_wordValue? hv)
  | numeral cs =>
    obtain ⟨v, hv, rfl⟩ := Option.map_eq_some_iff.mp h
    exact List.forall_mem_singleton.mpr (sound_numeralValue? hv)
  | _ => cases h

/-- All tokens of a text are sound. -/
theorem sound_tokensFrom {scan : Scan} {found tokens : List Token} {cs : List Char}
    (hfound : ∀ t ∈ found, t.Sound) (h : tokensFrom scan found cs = some tokens) : ∀ t ∈ tokens, t.Sound := by
  induction cs generalizing scan found with
  | nil =>
    rw [tokensFrom] at h
    obtain ⟨last, hlast, rfl⟩ := Option.map_eq_some_iff.mp h
    intro t ht
    rcases List.mem_append.mp (List.mem_reverse.mp ht) with ht | ht
    · exact sound_scanEnd hlast t (List.mem_reverse.mp ht)
    · exact hfound t ht
  | cons c cs ih =>
    rw [tokensFrom] at h
    split at h
    · cases h
    · rename_i next new hstep
      refine ih (fun t ht => ?_) h
      rcases List.mem_append.mp ht with ht | ht
      · exact sound_scanChar hstep t (List.mem_reverse.mp ht)
      · exact hfound t ht

/-! ## Open brackets -/

/-- Entries that a record may hold whose values may go `room` levels deep. -/
def EntriesFit (room : Nat) (entries : Record) : Prop := entries.keys.Nodup ∧ ∀ e ∈ entries, e.2.Fits room

/-- `Leaves stack room`: inside the innermost bracket of the stack a value may go `room` levels deep. -/
inductive Leaves : List Frame → Nat → Prop where
  | nothing : Leaves [] depthLimit
  | record {stack : List Frame} {room : Nat} {entries : Record} (key : String) (h : Leaves stack (room + 1))
      (fit : EntriesFit room entries) : Leaves (.record entries key :: stack) room
  | sequence {stack : List Frame} {room : Nat} {reversed : List Value} (h : Leaves stack (room + 1))
      (fit : ∀ v ∈ reversed, v.Fits room) : Leaves (.sequence reversed :: stack) room

variable {stack : List Frame} {room : Nat} {state next : Reading} {token : Token} {entries : Record}
  {reversed : List Value} {v : Value}

theorem Leaves.length_add (h : Leaves stack room) : stack.length + room = depthLimit := by
  induction h with
  | nothing => exact Nat.zero_add _
  | record key h fit ih =>
    rw [List.length_cons]
    omega
  | sequence h fit ih =>
    rw [List.length_cons]
    omega

/-- Another bracket may be opened while the stack is shorter than the limit. -/
theorem Leaves.exists_succ (h : Leaves stack room) (hdepth : stack.length < depthLimit) :
    ∃ less, Leaves stack (less + 1) := by
  have hlength := h.length_add
  obtain ⟨less, rfl⟩ : ∃ less, room = less + 1 := ⟨room - 1, by omega⟩
  exact ⟨less, h⟩

def Reading.Sound : Reading → Prop
  | .value stack => ∃ room, Leaves stack room
  | .firstItem stack | .firstKey stack => ∃ room, Leaves stack (room + 1)
  | .key stack entries | .colon stack entries _ | .afterEntry stack entries =>
    ∃ room, Leaves stack (room + 1) ∧ EntriesFit room entries
  | .afterItem stack reversed => ∃ room, Leaves stack (room + 1) ∧ ∀ v ∈ reversed, v.Fits room
  | .finished v => v.Fits depthLimit

theorem sound_place (h : Leaves stack room) (hv : v.Fits room) : (place v stack).Sound := by
  cases h with
  | nothing => exact hv
  | record key h fit =>
    refine ⟨room, h, Record.nodup_insert fit.1 key v, fun e he => ?_⟩
    rcases Record.mem_insert he with rfl | he
    · exact hv
    · exact fit.2 e he
  | sequence h fit => exact ⟨room, h, List.forall_mem_cons.mpr ⟨hv, fit⟩⟩

theorem sound_readValue (h : Leaves stack room) (htoken : token.Sound)
    (hread : readValue stack token = some next) : next.Sound := by
  cases token with
  | scalar v =>
    cases hread
    exact sound_place h (htoken room)
  | openRecord =>
    obtain ⟨hdepth, rfl⟩ : stack.length < depthLimit ∧ .firstKey stack = next := by simpa [readValue] using hread
    exact h.exists_succ hdepth
  | openSequence =>
    obtain ⟨hdepth, rfl⟩ : stack.length < depthLimit ∧ .firstItem stack = next := by simpa [readValue] using hread
    exact h.exists_succ hdepth
  | _ => cases hread

theorem sound_readKey (h : Leaves stack (room + 1)) (fit : EntriesFit room entries)
    (hread : readKey stack entries token = some next) : next.Sound := by
  unfold readKey at hread
  split at hread
  · cases hread
    exact ⟨room, h, fit⟩
  · cases hread

theorem entriesFit_nil (room : Nat) : EntriesFit room [] := ⟨List.nodup_nil, by simp⟩

/-- One token takes a sound state to a sound state. -/
theorem sound_readToken (h : state.Sound) (htoken : token.Sound) (hread : readToken state token = some next) :
    next.Sound := by
  cases state with
  | value stack =>
    obtain ⟨room, h⟩ := h
    exact sound_readValue h htoken hread
  -- An empty bracket is closed at once; otherwise the state goes on as inside a bracket that holds nothing.
  | firstItem stack =>
    obtain ⟨room, h⟩ := h
    unfold readToken at hread
    dsimp only at hread
    split at hread
    · cases hread
      exact sound_place h (Value.fits_sequence_iff.mpr (by simp))
    · exact sound_readValue (.sequence h (by simp)) htoken hread
  | firstKey stack =>
    obtain ⟨room, h⟩ := h
    unfold readToken at hread
    dsimp only at hread
    split at hread
    · cases hread
      exact sound_place h (Value.fits_record_iff.mpr (entriesFit_nil room))
    · exact sound_readKey h (entriesFit_nil room) hread
  | key stack entries =>
    obtain ⟨room, h, fit⟩ := h
    exact sound_readKey h fit hread
  | colon stack entries key =>
    obtain ⟨room, h, fit⟩ := h
    cases token with
    | colon =>
      cases hread
      exact ⟨room, .record key h fit⟩
    | _ => cases hread
  | afterItem stack reversed =>
    obtain ⟨room, h, fit⟩ := h
    cases token with
    | comma =>
      cases hread
      exact ⟨room, .sequence h fit⟩
    | closeSequence =>
      cases hread
      exact sound_place h (Value.fits_sequence_iff.mpr fun v hv => fit v (List.mem_reverse.mp hv))
    | _ => cases hread
  | afterEntry stack entries =>
    obtain ⟨room, h, fit⟩ := h
    cases token with
    | comma =>
      cases hread
      exact ⟨room, h, fit⟩
    | closeRecord =>
      cases hread
      exact sound_place h (Value.fits_record_iff.mpr fit)
    | _ => cases hread
  | finished v => cases hread

theorem sound_foldlM {tokens : List Token} (h : state.Sound) (htokens : ∀ t ∈ tokens, t.Sound)
    (hread : tokens.foldlM readToken state = some next) : next.Sound := by
  induction tokens generalizing state with
  | nil =>
    cases hread
    exact h
  | cons token tokens ih =>
    obtain ⟨htoken, htokens⟩ := List.forall_mem_cons.mp htokens
    rw [List.foldlM_cons] at hread
    obtain ⟨between, hstep, hread⟩ := Option.bind_eq_some_iff.mp hread
    exact ih (sound_readToken h htoken hstep) htokens hread

/-- What was read fits into the limit of nesting. -/
theorem fits_of_read? {s : String} (h : read? s = some v) : v.Fits depthLimit := by
  obtain ⟨tokens, htokens, h⟩ := Option.bind_eq_some_iff.mp h
  obtain ⟨state, hread, h⟩ := Option.bind_eq_some_iff.mp h
  have hstart : (Reading.value []).Sound := ⟨depthLimit, .nothing⟩
  have hsound : state.Sound := sound_foldlM hstart (sound_tokensFrom (by simp) htokens) hread
  split at h
  · cases h
    exact hsound
  · cases h

end Json
end JobTrail
