import JobTrail.Proofs.Uuid
import JobTrail.Proofs.Value.Layout
import JobTrail.Proofs.Value.Numeral
import JobTrail.Proofs.Value.Plain

/-!
# Values read back

Reading the text of a value gives what the text denotes: the value with its instants written out. This holds in
every layout. The text is followed through both passes at once. `Takes` says that a piece of text takes the
reader from one state to another whatever comes after it, so the text of a value is put together from the texts
of its parts, by induction on the value. Only at the end of a word or a number does it matter what comes next.
-/

namespace JobTrail

namespace Json

/-! ## Steps of the scan -/

variable {found : List Token} {cs rest : List Char} {c : Char} {token : Token}

theorem tokensFrom_cons {scan scan' : Scan} {tokens : List Token} (h : scanChar scan c = some (scan', tokens))
    (found : List Token) (rest : List Char) :
    tokensFrom scan found (c :: rest) = tokensFrom scan' (tokens.reverse ++ found) rest := by
  rw [tokensFrom, h]

/-- What ends a word and a number. -/
def Ends (rest : List Char) : Prop := ∀ c ∈ rest.head?, ¬ c.isLower ∧ ¬ isNumeralChar c

theorem ends_nil : Ends [] := by
  intro c hc
  cases hc

theorem ends_cons (h : ¬ c.isLower ∧ ¬ isNumeralChar c) : Ends (c :: rest) := by
  rintro d hd
  cases hd
  exact h

/-- A finished word or number is noted where it ends, and the scan goes on as from a gap. -/
theorem tokensFrom_finished {scan : Scan} {v : Value} (hend : scanEnd scan = some [.scalar v])
    (hnext : ∀ c ∈ rest.head?, scanChar scan c = scanAfter (some v) c) :
    tokensFrom scan found rest = tokensFrom .gap (.scalar v :: found) rest := by
  cases rest with
  | nil =>
    rw [tokensFrom, hend]
    simp [tokensFrom, scanEnd]
  | cons c rest =>
    rw [tokensFrom, tokensFrom, hnext c rfl]
    simp only [scanAfter, Option.bind_eq_bind, Option.bind_some]
    cases hgap : scanGap c with
    | none => simp [scanChar, hgap]
    | some p => simp [scanChar, hgap]

/-! ### Strings -/

theorem tokensFrom_escape (c : Char) (collected : List Char) (found : List Token) (rest : List Char) :
    tokensFrom (.string collected) found (escapeJson c ++ rest)
      = tokensFrom (.string (c :: collected)) found rest := by
  unfold escapeJson
  split
  · rename_i hquote
    subst hquote
    rfl
  split
  · rename_i hbackslash
    subst hbackslash
    rfl
  split
  · rename_i hcontrol
    have hc := Char.ofNat_toNat c
    split
    case h_6 =>
      have hhigh := hexValue?_hexDigit (c.toNat / 16) (by omega)
      have hlow := hexValue?_hexDigit (c.toNat % 16) (by omega)
      have hcode : scanChar (.code collected none 0 2) (hexDigit (c.toNat / 16))
          = some (.code collected none (c.toNat / 16) 1, []) := by
        simp [scanChar, hhigh]
      have hlast : scanChar (.code collected none (c.toNat / 16) 1) (hexDigit (c.toNat % 16))
          = some (.string (c :: collected), []) := by
        have hvalue : 16 * (c.toNat / 16) + c.toNat % 16 = c.toNat := by omega
        have hhalf : ¬ (0xD800 ≤ c.toNat ∧ c.toNat < 0xDC00) := by omega
        have hother : ¬ (0xDC00 ≤ c.toNat ∧ c.toNat < 0xE000) := by omega
        simp only [scanChar, hlow, hvalue, scanCode, if_neg hhalf, if_neg hother, hc, Option.bind_eq_bind,
          Option.bind_some, le_refl, if_true]
      have hmark : tokensFrom (.string collected) found ('\\' :: 'u' :: '0' :: '0'
          :: hexDigit (c.toNat / 16) :: hexDigit (c.toNat % 16) :: rest)
            = tokensFrom (.code collected none 0 2) found
              (hexDigit (c.toNat / 16) :: hexDigit (c.toNat % 16) :: rest) := rfl
      exact hmark.trans ((tokensFrom_cons hcode found _).trans (tokensFrom_cons hlast found _))
    all_goals
      rename_i hcode
      rw [hcode] at hc
      subst hc
      rfl
  · rename_i hquote hbackslash hcontrol
    have hplain : scanChar (.string collected) c = some (.string (c :: collected), []) := by
      simp only [scanChar, if_neg hquote, if_neg hbackslash, if_neg hcontrol]
    exact tokensFrom_cons hplain found rest

theorem tokensFrom_escapes (cs collected : List Char) (found : List Token) (rest : List Char) :
    tokensFrom (.string collected) found (cs.flatMap escapeJson ++ rest)
      = tokensFrom (.string (cs.reverse ++ collected)) found rest := by
  induction cs generalizing collected with
  | nil => rfl
  | cons c cs ih =>
    rw [List.flatMap_cons, List.append_assoc, tokensFrom_escape, ih, List.reverse_cons, List.append_assoc]
    rfl

theorem tokensFrom_quote (s : String) (found : List Token) (rest : List Char) :
    tokensFrom .gap found ((quoteJson s).toList ++ rest)
      = tokensFrom .gap (.scalar (.text s) :: found) rest := by
  have hopen : scanChar .gap '"' = some (.string [], []) := rfl
  have hclose : scanChar (.string (s.toList.reverse ++ [])) '"' = some (.gap, [.scalar (.text s)]) := by
    simp [scanChar]
  rw [quoteJson, String.toList_ofList, List.cons_append, tokensFrom_cons hopen, List.append_assoc,
    tokensFrom_escapes, List.singleton_append, tokensFrom_cons hclose]
  rfl

/-! ### Words and numbers -/

theorem tokensFrom_word {v : Value} (word : List Char) (hvalue : wordValue? word = some v) (hends : Ends rest)
    (found : List Token) :
    tokensFrom (.word word) found rest = tokensFrom .gap (.scalar v :: found) rest := by
  apply tokensFrom_finished
  · rw [scanEnd, hvalue]
    rfl
  · intro c hc
    rw [scanChar, if_neg (hends c hc).1, hvalue]

theorem tokensFrom_numeral {digits : List Char} (h : ∀ c ∈ digits, isNumeralChar c) (collected : List Char)
    (found : List Token) (rest : List Char) :
    tokensFrom (.numeral collected) found (digits ++ rest)
      = tokensFrom (.numeral (digits.reverse ++ collected)) found rest := by
  induction digits generalizing collected with
  | nil => rfl
  | cons c digits ih =>
    obtain ⟨hc, hdigits⟩ := List.forall_mem_cons.mp h
    have hstep : scanChar (.numeral collected) c = some (.numeral (c :: collected), []) := by
      rw [scanChar, if_pos hc]
    rw [List.cons_append, tokensFrom_cons hstep, List.reverse_nil, List.nil_append, ih hdigits,
      List.reverse_cons, List.append_assoc]
    rfl

theorem scanGap_numeral (h : c.isDigit ∨ c = '-') : scanGap c = some (.numeral [c], []) := by
  have hlower : ¬ c.isLower := by
    rcases h with hdigit | rfl
    · intro hlower
      simp [Char.isDigit, Char.isLower, UInt32.le_iff_toNat_le] at hdigit hlower
      omega
    · decide
  unfold scanGap
  split
  case h_12 => rw [if_neg hlower, if_pos h]
  all_goals exact absurd h (by decide)

theorem tokensFrom_number {n : Number} (h : n.ReadsBack) (hends : Ends rest) (found : List Token) :
    tokensFrom .gap found (n.print.toList ++ rest) = tokensFrom .gap (.scalar (.number n) :: found) rest := by
  obtain ⟨⟨c, digits, hprint, hfirst⟩, hchars, hvalue⟩ := h
  rw [hprint] at hchars hvalue ⊢
  obtain ⟨-, hdigits⟩ := List.forall_mem_cons.mp hchars
  have hscan : scanChar .gap c = some (.numeral [c], []) := scanGap_numeral hfirst
  rw [List.cons_append, tokensFrom_cons hscan, tokensFrom_numeral hdigits, ← List.reverse_cons]
  apply tokensFrom_finished
  · rw [scanEnd, hvalue]
    rfl
  · intro c hc
    rw [scanChar, if_neg (hends c hc).2, hvalue]

/-! ## Pieces of text -/

variable {s t : List Char} {before between after : Reading} {stack : List Frame} {v : Value} {r : Record}
  {items : List Value}

/-- The text takes the reader from one state to another, whatever comes after it. -/
def Takes (text : List Char) (before after : Reading) : Prop :=
  ∃ tokens : List Token, tokens.foldlM readToken before = some after ∧ ∀ found rest, Ends rest →
    tokensFrom .gap found (text ++ rest) = tokensFrom .gap (tokens.reverse ++ found) rest

theorem takes_nil (state : Reading) : Takes [] state state := ⟨[], rfl, fun _ _ _ => rfl⟩

theorem Takes.append (h : Takes s before between) (h' : Takes t between after)
    (hends : ∀ rest, Ends (t ++ rest)) : Takes (s ++ t) before after := by
  obtain ⟨tokens, hread, hscan⟩ := h
  obtain ⟨tokens', hread', hscan'⟩ := h'
  refine ⟨tokens ++ tokens', ?_, ?_⟩
  · rw [List.foldlM_append, hread]
    exact hread'
  · intro found rest hrest
    rw [List.append_assoc, hscan found _ (hends rest), hscan' _ rest hrest, List.reverse_append,
      List.append_assoc]

/-- A mark is a token of its own. -/
theorem Takes.mark {mark : Char} (token : Token) (hscan : scanGap mark = some (.gap, [token]))
    (hread : readToken before token = some between) (h : Takes t between after) :
    Takes (mark :: t) before after := by
  obtain ⟨tokens, hreads, hscans⟩ := h
  refine ⟨token :: tokens, ?_, ?_⟩
  · rw [List.foldlM_cons, hread]
    exact hreads
  · intro found rest hrest
    have hscan' : scanChar .gap mark = some (.gap, [token]) := hscan
    rw [List.cons_append, tokensFrom_cons hscan', hscans _ rest hrest, List.reverse_cons]
    simp

/-- A blank completes no token. -/
theorem tokensFrom_blanks {blanks : List Char} (hblank : Layout.Blank blanks) (found : List Token)
    (rest : List Char) : tokensFrom .gap found (blanks ++ rest) = tokensFrom .gap found rest := by
  induction blanks with
  | nil => rfl
  | cons c blanks ih =>
    obtain ⟨hc, hblanks⟩ := List.forall_mem_cons.mp hblank
    have hstep : scanChar .gap c = some (.gap, []) := by rcases hc with rfl | rfl <;> rfl
    rw [List.cons_append, tokensFrom_cons hstep]
    exact ih hblanks

theorem Takes.behindBlanks {blanks : List Char} (hblank : Layout.Blank blanks) (h : Takes t before after) :
    Takes (blanks ++ t) before after := by
  obtain ⟨tokens, hread, hscan⟩ := h
  refine ⟨tokens, hread, fun found rest hrest => ?_⟩
  rw [List.append_assoc, tokensFrom_blanks hblank, hscan found rest hrest]

/-- What stands behind blanks ends a word or a number if the first that stands behind them does. -/
theorem ends_blanks {blanks : List Char} (hblank : Layout.Blank blanks) (h : Ends rest) :
    Ends (blanks ++ rest) := by
  cases blanks with
  | nil => exact h
  | cons c blanks =>
    apply ends_cons
    rcases hblank c List.mem_cons_self with rfl | rfl <;> decide

theorem takes_scalar (hread : readToken before (.scalar v) = some after)
    (hscan : ∀ found rest, Ends rest →
      tokensFrom .gap found (t ++ rest) = tokensFrom .gap (.scalar v :: found) rest) : Takes t before after := by
  refine ⟨[.scalar v], ?_, hscan⟩
  rw [List.foldlM_cons, hread]
  rfl

/-! ### What may come next -/

/-- A value may come next, inside these open brackets. -/
def Awaits (state : Reading) (stack : List Frame) : Prop :=
  ∀ token, token ≠ .closeSequence → readToken state token = readValue stack token

theorem awaits_value (stack : List Frame) : Awaits (.value stack) stack := fun _ _ => rfl

theorem awaits_firstItem (stack : List Frame) : Awaits (.firstItem stack) (.sequence [] :: stack) := by
  intro token htoken
  cases token
  case closeSequence => exact absurd rfl htoken
  all_goals rfl

/-- A key may come next, behind these entries. -/
def AwaitsKey (state : Reading) (stack : List Frame) (entries : Record) : Prop :=
  ∀ key, readToken state (.scalar (.text key)) = some (.colon stack entries key)

theorem awaitsKey_firstKey (stack : List Frame) : AwaitsKey (.firstKey stack) stack [] := fun _ => rfl

theorem awaitsKey_key (stack : List Frame) (entries : Record) :
    AwaitsKey (.key stack entries) stack entries := fun _ => rfl

/-! ### Sequences and records -/

section Brackets

variable {l : Layout} (hproper : l.Proper) (depth : Nat)

include hproper

/-- A comma or the bracket stands behind an entry. -/
theorem ends_behind {texts : List (List Char)} {closing : Char}
    (h : ¬ closing.isLower ∧ ¬ isNumeralChar closing) (rest : List Char) :
    Ends (texts.flatMap (fun t => ',' :: (l.indent (depth + 1) ++ t)) ++ (l.indent depth ++ [closing]) ++ rest) := by
  cases texts with
  | nil =>
    rw [List.flatMap_nil, List.nil_append, List.append_assoc]
    exact ends_blanks (hproper.indent depth) (ends_cons h)
  | cons text texts => exact ends_cons (by decide)

/-- The items behind the first one, up to the bracket that closes them. -/
theorem takes_items (h : ∀ v ∈ items, ∀ reversed, Takes (l.text (depth + 1) v) (.value (.sequence reversed :: stack))
    (place v.plain (.sequence reversed :: stack))) (reversed : List Value) :
    Takes ((items.map (l.text (depth + 1))).flatMap (fun t => ',' :: (l.indent (depth + 1) ++ t))
        ++ (l.indent depth ++ [']']))
      (.afterItem stack reversed) (place (.sequence (reversed.reverse ++ items.map Value.plain)) stack) := by
  induction items generalizing reversed with
  | nil =>
    rw [List.map_nil, List.map_nil, List.append_nil, List.flatMap_nil, List.nil_append]
    exact .behindBlanks (hproper.indent depth) (.mark .closeSequence rfl rfl (takes_nil _))
  | cons v items ih =>
    obtain ⟨hv, hitems⟩ := List.forall_mem_cons.mp h
    have hrest := ih hitems (v.plain :: reversed)
    rw [List.reverse_cons, List.append_assoc, List.singleton_append] at hrest
    rw [List.map_cons, List.flatMap_cons, List.append_assoc, List.cons_append, List.append_assoc, List.map_cons]
    refine .mark .comma rfl rfl (.behindBlanks (hproper.indent (depth + 1)) ?_)
    exact (hv reversed).append hrest (ends_behind hproper depth (by decide))

theorem takes_sequence (hawaits : Awaits before stack) (hdepth : stack.length < depthLimit)
    (h : ∀ v ∈ items, ∀ state reversed, Awaits state (.sequence reversed :: stack) →
      Takes (l.text (depth + 1) v) state (place v.plain (.sequence reversed :: stack))) :
    Takes (l.enclose '[' ']' depth (items.map (l.text (depth + 1)))) before
      (place (.sequence (items.map Value.plain)) stack) := by
  have hopen : readToken before .openSequence = some (.firstItem stack) := by
    rw [hawaits _ (by simp), readValue, if_pos hdepth]
  cases items with
  | nil => exact .mark .openSequence rfl hopen (.mark .closeSequence rfl rfl (takes_nil _))
  | cons v items =>
    obtain ⟨hv, hitems⟩ := List.forall_mem_cons.mp h
    have hrest := takes_items hproper depth (fun w hw reversed => hitems w hw _ reversed (awaits_value _)) [v.plain]
    rw [List.map_cons, Layout.enclose, List.append_assoc, List.append_assoc, List.append_assoc]
    refine .mark .openSequence rfl hopen (.behindBlanks (hproper.indent (depth + 1)) ?_)
    exact (hv _ [] (awaits_firstItem stack)).append hrest (ends_behind hproper depth (by decide))

theorem takes_entry {key : String} {entries : Record} (hawaits : AwaitsKey before stack entries)
    (h : Takes (l.text depth v) (.value (.record entries key :: stack))
      (place v.plain (.record entries key :: stack))) :
    Takes (l.entryText depth (key, v)) before (.afterEntry stack (entries.insert key v.plain)) := by
  have hkey : Takes (quoteJson key).toList before (.colon stack entries key) :=
    takes_scalar (hawaits key) fun found rest _ => tokensFrom_quote key found rest
  exact hkey.append (.mark .colon rfl rfl (.behindBlanks hproper.gap h)) fun rest => ends_cons (by decide)

/-- The entries behind the first one, up to the bracket that closes them. -/
theorem takes_entries (h : ∀ e ∈ r, ∀ entries, Takes (l.text (depth + 1) e.2)
      (.value (.record entries e.1 :: stack)) (place e.2.plain (.record entries e.1 :: stack)))
    (entries : Record) :
    Takes ((r.map (l.entryText (depth + 1))).flatMap (fun t => ',' :: (l.indent (depth + 1) ++ t))
        ++ (l.indent depth ++ ['\x7d']))
      (.afterEntry stack entries) (place (.record ((r.map fun e => (e.1, e.2.plain)).foldl
        (fun (r : Record) e => r.insert e.1 e.2) entries)) stack) := by
  induction r generalizing entries with
  | nil =>
    rw [List.map_nil, List.flatMap_nil, List.nil_append]
    exact .behindBlanks (hproper.indent depth) (.mark .closeRecord rfl rfl (takes_nil _))
  | cons e r ih =>
    obtain ⟨he, hr⟩ := List.forall_mem_cons.mp h
    have hrest := ih hr (entries.insert e.1 e.2.plain)
    rw [List.map_cons, List.flatMap_cons, List.append_assoc, List.cons_append, List.append_assoc, List.map_cons,
      List.foldl_cons]
    refine .mark .comma rfl rfl (.behindBlanks (hproper.indent (depth + 1)) ?_)
    exact (takes_entry hproper (depth + 1) (awaitsKey_key stack entries) (he entries)).append hrest
      (ends_behind hproper depth (by decide))

theorem takes_record (hawaits : Awaits before stack) (hdepth : stack.length < depthLimit)
    (h : ∀ e ∈ r, ∀ entries, Takes (l.text (depth + 1) e.2) (.value (.record entries e.1 :: stack))
      (place e.2.plain (.record entries e.1 :: stack))) :
    Takes (l.enclose '\x7b' '\x7d' depth (r.map (l.entryText (depth + 1)))) before
      (place (.record (Record.ofList (r.map fun e => (e.1, e.2.plain)))) stack) := by
  have hopen : readToken before .openRecord = some (.firstKey stack) := by
    rw [hawaits _ (by simp), readValue, if_pos hdepth]
  cases r with
  | nil => exact .mark .openRecord rfl hopen (.mark .closeRecord rfl rfl (takes_nil _))
  | cons e r =>
    obtain ⟨he, hr⟩ := List.forall_mem_cons.mp h
    rw [List.map_cons, Layout.enclose, List.append_assoc, List.append_assoc, List.append_assoc]
    refine .mark .openRecord rfl hopen (.behindBlanks (hproper.indent (depth + 1)) ?_)
    exact (takes_entry hproper (depth + 1) (awaitsKey_firstKey stack) (he [])).append
      (takes_entries hproper depth hr _) (ends_behind hproper depth (by decide))

end Brackets

end Json

/-! ## Readable values -/

namespace Value

variable {v : Value} {r : Record} {items : List Value}

mutual

/-- How many brackets are open around the innermost value. -/
def depth : Value → Nat
  | record entries => depthEntries entries + 1
  | sequence items => depthItems items + 1
  | null | bool _ | number _ | text _ | instant _ => 0

def depthEntries : List (String × Value) → Nat
  | [] => 0
  | (_, v) :: rest => max (depth v) (depthEntries rest)

def depthItems : List Value → Nat
  | [] => 0
  | v :: rest => max (depth v) (depthItems rest)

end

theorem depth_record_le_iff {room : Nat} : (record r).depth ≤ room + 1 ↔ ∀ e ∈ r, e.2.depth ≤ room := by
  rw [depth, Nat.succ_le_succ_iff]
  induction r with
  | nil => simp [depthEntries]
  | cons e rest ih =>
    obtain ⟨k, v⟩ := e
    rw [depthEntries, Nat.max_le, ih, List.forall_mem_cons]

theorem depth_sequence_le_iff {room : Nat} : (sequence items).depth ≤ room + 1 ↔ ∀ v ∈ items, v.depth ≤ room := by
  rw [depth, Nat.succ_le_succ_iff]
  induction items with
  | nil => simp [depthItems]
  | cons v rest ih => rw [depthItems, Nat.max_le, ih, List.forall_mem_cons]

theorem depth_lt_of_entry {e : String × Value} (h : e ∈ r) : e.2.depth < (record r).depth :=
  Nat.lt_succ_of_le (depth_record_le_iff.mp (Nat.le_refl (depthEntries r + 1)) e h)

theorem depth_lt_of_item (h : v ∈ items) : v.depth < (sequence items).depth :=
  Nat.lt_succ_of_le (depth_sequence_le_iff.mp (Nat.le_refl (depthItems items + 1)) v h)

/-- Every number at any depth reads back. -/
def NumbersReadBack (v : Value) : Prop := ∀ n, Within (number n) v → n.ReadsBack

theorem numbersReadBack_record_iff : (record r).NumbersReadBack ↔ ∀ e ∈ r, e.2.NumbersReadBack := by
  simp only [NumbersReadBack, within_record_iff, reduceCtorEq, false_or]
  exact ⟨fun h e he n hn => h n ⟨e, he, hn⟩, fun h n ⟨e, he, hn⟩ => h e he n hn⟩

theorem numbersReadBack_sequence_iff : (sequence items).NumbersReadBack ↔ ∀ v ∈ items, v.NumbersReadBack := by
  simp only [NumbersReadBack, within_sequence_iff, reduceCtorEq, false_or]
  exact ⟨fun h v hv n hn => h n ⟨v, hv, hn⟩, fun h n ⟨v, hv, hn⟩ => h v hv n hn⟩

theorem numbersReadBack_text (s : String) : (text s).NumbersReadBack := fun _ h => nomatch h

theorem numbersReadBack_number_iff {n : Number} : (number n).NumbersReadBack ↔ n.ReadsBack := by
  constructor
  · intro h
    exact h n (.here _)
  · intro h m hm
    cases hm
    exact h

/-- What it takes for the text of a value to be read. -/
structure Readable (v : Value) : Prop where
  distinct : v.Distinct
  numbers : v.NumbersReadBack
  shallow : v.depth ≤ Json.depthLimit

end Value

namespace Json

variable {state : Reading} {stack : List Frame}

/-- In every layout the text of a value takes the reader to the state behind this value. -/
theorem takes_text {l : Layout} (hproper : l.Proper) (v : Value) : ∀ depth state stack, Awaits state stack →
    v.Distinct → v.NumbersReadBack → stack.length + v.depth ≤ depthLimit →
    Takes (l.text depth v) state (place v.plain stack) := by
  induction v using Value.nestedInduction with
  | null =>
    intro depth state stack hawaits _ _ _
    refine takes_scalar (hawaits _ (by simp)) fun found rest hrest => ?_
    exact tokensFrom_word "null".toList.reverse rfl hrest found
  | bool b =>
    intro depth state stack hawaits _ _ _
    refine takes_scalar (hawaits _ (by simp)) fun found rest hrest => ?_
    cases b with
    | false => exact tokensFrom_word "false".toList.reverse rfl hrest found
    | true => exact tokensFrom_word "true".toList.reverse rfl hrest found
  | number n =>
    intro depth state stack hawaits _ hnumbers _
    exact takes_scalar (hawaits _ (by simp)) fun found rest hrest =>
      tokensFrom_number (hnumbers n (.here _)) hrest found
  | text s =>
    intro depth state stack hawaits _ _ _
    exact takes_scalar (hawaits _ (by simp)) fun found rest _ => tokensFrom_quote s found rest
  | instant t =>
    intro depth state stack hawaits _ _ _
    exact takes_scalar (hawaits _ (by simp)) fun found rest _ => tokensFrom_quote t.iso found rest
  | record r ih =>
    intro depth state stack hawaits distinct hnumbers hdepth
    obtain ⟨hkeys, hentries⟩ := Value.distinct_record_iff.mp distinct
    rw [Value.numbersReadBack_record_iff] at hnumbers
    -- The reader writes the entries anew, which changes nothing since the keys are distinct.
    have hplain : Record.ofList (r.map fun e => (e.1, e.2.plain)) = r.map fun e => (e.1, e.2.plain) :=
      Record.ofList_of_nodup (by simpa [Record.keys, Function.comp_def] using hkeys)
    rw [Layout.text, Layout.entryTexts_eq_map, Value.plain_record, ← hplain]
    refine takes_record hproper depth hawaits (by simp only [Value.depth] at hdepth; omega) fun e he entries => ?_
    have hshallow := Value.depth_lt_of_entry he
    exact ih e he _ _ _ (awaits_value _) (hentries e he) (hnumbers e he) (by simp only [List.length_cons]; omega)
  | sequence items ih =>
    intro depth state stack hawaits distinct hnumbers hdepth
    rw [Value.distinct_sequence_iff] at distinct
    rw [Value.numbersReadBack_sequence_iff] at hnumbers
    rw [Layout.text, Layout.itemTexts_eq_map, Value.plain_sequence]
    refine takes_sequence hproper depth hawaits (by simp only [Value.depth] at hdepth; omega)
      fun v hv state reversed hstate => ?_
    have hshallow := Value.depth_lt_of_item hv
    exact ih v hv _ _ _ hstate (distinct v hv) (hnumbers v hv) (by simp only [List.length_cons]; omega)

/-- A text of a readable value, with blanks behind it, denotes the value with its instants written out. -/
theorem read?_text {v : Value} (h : v.Readable) {l : Layout} (hproper : l.Proper) {blanks : List Char}
    (hblank : Layout.Blank blanks) {s : String} (hs : s.toList = l.text 0 v ++ blanks) :
    read? s = some v.plain := by
  obtain ⟨tokens, hread, hscan⟩ := takes_text hproper v 0 (.value []) [] (awaits_value []) h.distinct h.numbers
    (by simpa using h.shallow)
  have htokens : tokensFrom .gap [] (l.text 0 v ++ blanks) = tokensFrom .gap tokens.reverse [] := by
    have hends : Ends blanks := by simpa using ends_blanks hblank ends_nil
    have hblanks := tokensFrom_blanks hblank tokens.reverse []
    rw [List.append_nil] at hblanks
    rw [hscan [] blanks hends, List.append_nil, hblanks]
  have hend : tokensFrom .gap tokens.reverse [] = some tokens := by simp [tokensFrom, scanEnd]
  simp [read?, hs, htokens, hend, hread, place]

/-- The text of a readable value denotes the value with its instants written out. -/
theorem read?_print {v : Value} (h : v.Readable) : read? v.print = some v.plain :=
  read?_text h Layout.proper_compact Layout.blank_nil (by rw [Layout.toList_print 0, List.append_nil])

/-- So does the spread text, at the end of which stands a line end. -/
theorem read?_printSpread {v : Value} (h : v.Readable) : read? (v.printSpread 0 ++ "\n") = some v.plain := by
  have hblank : Layout.Blank ['\n'] := by simp [Layout.Blank]
  apply read?_text h Layout.proper_spread hblank
  rw [String.toList_append, Layout.toList_printSpread]
  rfl

theorem fromUTF8?_toUTF8 (s : String) : String.fromUTF8? s.toUTF8 = some s := dif_pos s.isValidUTF8

theorem readBytes?_print {v : Value} (h : v.Readable) : readBytes? v.print.toUTF8 = some v.plain := by
  rw [readBytes?, fromUTF8?_toUTF8, Option.bind_some, read?_print h]

end Json
end JobTrail
