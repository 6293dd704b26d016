import JobTrail.Checklist
import JobTrail.Proofs.Sql.Laws
import JobTrail.Proofs.Storage.Races
import Mathlib.Data.List.TakeWhile

/-!
# Checklist items that are posted side by side

How many items a user has under one company and title after several posts of it at the same time. A post
looks first whether the item is there, and adds it if it is not. Once it is there no later look misses it,
so the posts that add an item are those that looked before the first of them was added.
-/

set_option maxRecDepth 8192

namespace JobTrail.Checklist

open Sql Storage

variable {e : Engine} {s s' : Storage} {user title : String} {owner company : Value} {draft : Draft}
  {script : List Exchange} {result : Except ServiceError Posted}

/-! ## Items -/

def IsItem (owner company : Value) (title : String) (r : Record) : Prop :=
  r.column "user_id" = owner ∧ r.column "company_id" = company ∧ r.column "title" = .text title

instance (owner company : Value) (title : String) (r : Record) : Decidable (IsItem owner company title r) :=
  inferInstanceAs (Decidable (_ ∧ _ ∧ _))

/-- How many items a user has under a company and a title. -/
def copies (owner company : Value) (title : String) (db : Database) : Nat :=
  (db.rows "checklist_items").countP (IsItem owner company title ·)

/-- A post for this user, company and title, however the ids are spelled. -/
structure Concerns (owner company : Value) (title user : String) (draft : Draft) : Prop where
  owner : castUuid (.text user) = .ok owner
  company : castUuid (.text draft.companyId) = .ok company
  title : draft.title = title

/-! ## Statements -/

def lookUpText : String :=
  ("SELECT id FROM checklist_items "
   ++ "WHERE user_id = $1::uuid AND company_id = $2::uuid AND title = $3")

def additionText : String :=
  ("INSERT INTO checklist_items (id, company_id, user_id, title, description, completed, category) "
   ++ "VALUES ($1::uuid, $2::uuid, $3::uuid, $4, $5, $6::boolean, $7) "
   ++ "RETURNING *")

def refreshmentText : String :=
  ("UPDATE checklist_items SET completed = $1::boolean, "
   ++ "description = COALESCE($2, description), category = COALESCE($3, category) "
   ++ "WHERE id = $4::uuid RETURNING *")

def lookUp (user : String) (draft : Draft) : Statement :=
  ⟨lookUpText, [.text user, .text draft.companyId, .text draft.title]⟩

def addition (user : String) (draft : Draft) (id : String) : Statement :=
  ⟨additionText, [.text id, .text draft.companyId, .text user, .text draft.title, .ofText? draft.description,
    .bool draft.completed, .text draft.category]⟩

def refreshment (id : Value) (draft : Draft) : Statement :=
  ⟨refreshmentText, [.bool draft.completed, .ofText? draft.description, .text draft.category, id]⟩

def itemConditions : List Condition :=
  [.equals "user_id" (.parameter 0 (some "uuid")), .equals "company_id" (.parameter 1 (some "uuid")),
    .equals "title" (.parameter 2 none)]

def newColumns : List String :=
  ["id", "company_id", "user_id", "title", "description", "completed", "category"]

def newValues : List Operand :=
  [.parameter 0 (some "uuid"), .parameter 1 (some "uuid"), .parameter 2 (some "uuid"), .parameter 3 none,
    .parameter 4 none, .parameter 5 (some "boolean"), .parameter 6 none]

def refreshed : List (String × Operand) :=
  [("completed", .parameter 0 (some "boolean")), ("description", .orColumn 1 none "description"),
    ("category", .orColumn 2 none "category")]

theorem read?_lookUp :
    read? lookUpText = some (.select (.these ["id"]) "checklist_items" none itemConditions []) :=
  ((spells_ofList _).append (spells_ofList _)).read? (by decide)

theorem read?_addition :
    read? additionText = some (.insert "checklist_items" newColumns newValues false (some .all)) :=
  (((spells_ofList _).append (spells_ofList _)).append (spells_ofList _)).read? (by decide)

theorem read?_refreshment :
    read? refreshmentText = some (.update "checklist_items" refreshed
      [.equals "id" (.parameter 3 (some "uuid"))] (some .all)) :=
  (((spells_ofList _).append (spells_ofList _)).append (spells_ofList _)).read? (by decide)

theorem bindAll_itemConditions (e : Engine) (hcall : Concerns owner company title user draft) :
    bindAll e (lookUp user draft).params itemConditions = .ok fun r => decide (IsItem owner company title r) := by
  obtain ⟨howner, hcompany, rfl⟩ := hcall
  have hfirst : castTo e (.text user) (some "uuid") = .ok owner := howner
  have hsecond : castTo e (.text draft.companyId) (some "uuid") = .ok company := hcompany
  rw [itemConditions, bindAll_cons, bindAll_cons, bindAll_singleton,
    bind_equals rfl hfirst (ne_null_of_castUuid howner), bind_equals rfl hsecond (ne_null_of_castUuid hcompany),
    bind_equals rfl rfl (by simp)]
  refine congrArg Except.ok (funext fun r => ?_)
  dsimp only
  rw [← Bool.decide_and, ← Bool.decide_and]
  rfl

theorem run_lookUp (hcall : Concerns owner company title user draft) (db : Database) :
    (Query.select (.these ["id"]) "checklist_items" none itemConditions []).run e (lookUp user draft).params db
      = .ok ((e.arrange [] ((db.rows "checklist_items").filter (IsItem owner company title ·))).map
          fun r => Columns.pick r (.these ["id"]), db) := by
  rw [run_select_eq, bindAll_itemConditions e hcall]
  rfl

theorem filter_eq_nil_iff_copies (db : Database) :
    (db.rows "checklist_items").filter (IsItem owner company title ·) = [] ↔ copies owner company title db = 0 := by
  rw [List.filter_eq_nil_iff, copies, List.countP_eq_zero]

/-- A look finds nothing exactly if there is nothing to find. -/
theorem obeys_lookUp (hcall : Concerns owner company title user draft) {x : Except DatabaseError (List Record)}
    (h : Obeys e s (.execute (lookUp user draft)) x s') :
    s'.db = s.db ∧ ∃ found, x = .ok found ∧ (found = [] ↔ copies owner company title s.db = 0) := by
  obtain ⟨rows, db', hrun, rfl, rfl⟩ := (obeys_execute_iff read?_lookUp).mp h
  cases (run_lookUp hcall s.db).symm.trans hrun
  refine ⟨rfl, _, rfl, ?_⟩
  rw [List.map_eq_nil_iff, arrange_eq_nil_iff, filter_eq_nil_iff_copies]

theorem obeys_lookUp_absent (hcall : Concerns owner company title user draft)
    (hnone : copies owner company title s.db = 0) :
    Obeys e s (.execute (lookUp user draft)) (.ok []) s := by
  apply (obeys_execute_iff read?_lookUp).mpr
  refine ⟨[], s.db, (run_lookUp hcall s.db).trans ?_, rfl, rfl⟩
  rw [arrange_eq_nil_iff.mpr ((filter_eq_nil_iff_copies s.db).mpr hnone)]
  rfl

theorem obeys_addition (hcall : Concerns owner company title user draft) {id : String}
    {x : Except DatabaseError (List Record)} (h : Obeys e s (.execute (addition user draft id)) x s') :
    copies owner company title s'.db = copies owner company title s.db + 1 := by
  obtain ⟨rows, db', hrun, -, rfl⟩ := (obeys_execute_iff read?_addition).mp h
  obtain ⟨fs, hfs, ⟨⟨⟩, -⟩ | ⟨rfl, -⟩⟩ := run_insert hrun
  let row := newRow e "checklist_items" newColumns (fs.map fun f => f [])
  have huser : castTo e (.text user) (some "uuid") = .ok (row.column "user_id") :=
    column_newRow_parameter hfs rfl rfl
  have hcompany : castTo e (.text draft.companyId) (some "uuid") = .ok (row.column "company_id") :=
    column_newRow_parameter hfs rfl rfl
  have htitle : castTo e (.text draft.title) none = .ok (row.column "title") :=
    column_newRow_parameter hfs rfl rfl
  have hitem : IsItem owner company title row := by
    refine ⟨?_, ?_, ?_⟩
    · exact Except.ok.inj (huser.symm.trans hcall.owner)
    · exact Except.ok.inj (hcompany.symm.trans hcall.company)
    · rw [← hcall.title]
      exact (Except.ok.inj htitle).symm
  simp [copies, Sql.rows_set, List.countP_append, row, hitem]

theorem obeys_refreshment {id : Value} {x : Except DatabaseError (List Record)}
    (h : Obeys e s (.execute (refreshment id draft)) x s') :
    copies owner company title s'.db = copies owner company title s.db := by
  obtain ⟨rows, db', hrun, -, rfl⟩ := (obeys_execute_iff read?_refreshment).mp h
  obtain ⟨sets, test, hsets, -, rfl, -⟩ := run_update hrun
  have hkeeps : ∀ r, IsItem owner company title (if test r then change sets r else r) ↔
      IsItem owner company title r := by
    intro r
    split
    · have hcolumn : ∀ c ∉ refreshed.map (·.1), (change sets r).column c = r.column c :=
        fun c hc => column_change_of_bindSets hsets hc r
      rw [IsItem, hcolumn _ (by decide), hcolumn _ (by decide), hcolumn _ (by decide), IsItem]
    · exact Iff.rfl
  simp only [copies, Sql.rows_set, if_pos, List.countP_map, Function.comp_def, hkeeps]

/-! ## The exchanges of one post -/

def looksUp (x : Exchange) : Bool := x.executes lookUpText

def adds (x : Exchange) : Bool := x.executes additionText

inductive IsPart (user : String) (draft : Draft) : Effect → Prop where
  | lookUp : IsPart user draft (.execute (lookUp user draft))
  | naming : IsPart user draft .freshId
  | addition (id : String) : IsPart user draft (.execute (addition user draft id))
  | refreshment (id : Value) : IsPart user draft (.execute (refreshment id draft))

theorem texts_ne :
    lookUpText ≠ additionText ∧ refreshmentText ≠ additionText ∧ refreshmentText ≠ lookUpText := by
  decide

/-- The exchanges of a post that looks once, finds some items, and adds one if it found none. -/
structure IsScript (user : String) (draft : Draft) (found : List Record) (script : List Exchange) : Prop where
  parts : ∀ x ∈ script, IsPart user draft x.effect
  looks : ⟨.execute (lookUp user draft), .ok found⟩ ∈ script
  only : ∀ x ∈ script, looksUp x → x = ⟨.execute (lookUp user draft), .ok found⟩
  once : script.countP looksUp = 1
  adds : script.countP adds = if found = [] then 1 else 0

theorem isScript_adding (user : String) (draft : Draft) (id : String) (rows : List Record) :
    IsScript user draft [] [⟨.execute (lookUp user draft), .ok []⟩, ⟨.freshId, id⟩,
      ⟨.execute (addition user draft id), .ok rows⟩] := by
  obtain ⟨hla, -, -⟩ := texts_ne
  constructor
  · intro x hx
    simp only [List.mem_cons, List.not_mem_nil, or_false] at hx
    rcases hx with rfl | rfl | rfl
    · exact .lookUp
    · exact .naming
    · exact .addition id
  · exact List.mem_cons_self
  · intro x hx hlooks
    simp only [List.mem_cons, List.not_mem_nil, or_false] at hx
    rcases hx with rfl | rfl | rfl
    · rfl
    · cases hlooks
    · simp [looksUp, addition, hla.symm] at hlooks
  · simp [looksUp, lookUp, addition, hla.symm]
  · simp [adds, lookUp, addition, hla]

theorem isScript_refreshing (user : String) (draft : Draft) (row : Record) (others rows : List Record) :
    IsScript user draft (row :: others) [⟨.execute (lookUp user draft), .ok (row :: others)⟩,
      ⟨.execute (refreshment (row.column "id") draft), .ok rows⟩] := by
  obtain ⟨hla, hra, hrl⟩ := texts_ne
  constructor
  · intro x hx
    simp only [List.mem_cons, List.not_mem_nil, or_false] at hx
    rcases hx with rfl | rfl
    · exact .lookUp
    · exact .refreshment _
  · exact List.mem_cons_self
  · intro x hx hlooks
    simp only [List.mem_cons, List.not_mem_nil, or_false] at hx
    rcases hx with rfl | rfl
    · rfl
    · simp [looksUp, refreshment, hrl] at hlooks
  · simp [looksUp, lookUp, refreshment, hrl]
  · simp [adds, lookUp, refreshment, hla, hra]

theorem eq_nil_of_plays_first {rows : List Record} {missing : String} {f : Record → Posted}
    (h : (Service.first rows missing >>= fun row => pure (f row)).run.Plays script result) : script = [] := by
  obtain ⟨x, hfirst⟩ := (Task.sameScripts_andThen (fun row => ⟨.ok (f row), rfl⟩) script).mp ⟨result, h⟩
  exact (Task.plays_first_iff.mp hfirst).1

theorem isScript_of_plays (hid : Uuid.isUuid draft.companyId) (hplays : (post user draft).run.Plays script result)
    (hgives : ∀ x ∈ script, (Obeys e).Gives x) : ∃ found, IsScript user draft found script := by
  unfold post at hplays
  rw [if_pos hid] at hplays
  obtain ⟨found, rest, rfl, hnext, -, hgives₁⟩ := hplays.execute_andThen hgives
  refine ⟨found, ?_⟩
  cases found with
  | nil =>
    dsimp only [List.head?, add] at hnext
    rw [bind_assoc] at hnext
    obtain ⟨id, rest, rfl, hadding⟩ := Task.plays_freshId_andThen_iff.mp hnext
    obtain ⟨-, hgives₂⟩ := List.forall_mem_cons.mp hgives₁
    rw [bind_assoc] at hadding
    obtain ⟨rows, rest, rfl, hlast, -, -⟩ := hadding.execute_andThen hgives₂
    obtain rfl := eq_nil_of_plays_first hlast
    exact isScript_adding user draft id rows
  | cons row others =>
    dsimp only [List.head?, refresh] at hnext
    rw [bind_assoc] at hnext
    obtain ⟨rows, rest, rfl, hlast, -, -⟩ := hnext.execute_andThen hgives₁
    obtain rfl := eq_nil_of_plays_first hlast
    exact isScript_refreshing user draft row others rows

/-! ## Looks and additions in a history -/

section Along

variable {history before after : List Turn} {turn : Turn}

theorem copies_step (hcall : Concerns owner company title user draft)
    (hpart : IsPart user draft turn.exchange.effect)
    (h : Obeys e s turn.exchange.effect turn.exchange.answer s') :
    copies owner company title s'.db = copies owner company title s.db + if adds turn.exchange then 1 else 0 := by
  obtain ⟨hla, hra, -⟩ := texts_ne
  obtain ⟨place, r, x⟩ := turn
  cases hpart with
  | lookUp =>
    have hsame := (obeys_lookUp hcall h).1
    simp [adds, lookUp, hla, hsame]
  | naming =>
    have hsame : s'.db = s.db := Obeys.freshId h
    simp [adds, hsame]
  | addition id =>
    have hmore := obeys_addition hcall h
    simp [adds, addition, hmore]
  | refreshment id =>
    have hsame : copies owner company title s'.db = copies owner company title s.db := obeys_refreshment h
    simp [adds, refreshment, hra, hsame]

/-- A turn of a post for this user, company and title. -/
def IsPost (owner company : Value) (title : String) (turn : Turn) : Prop :=
  ∃ user draft, Concerns owner company title user draft ∧ IsPart user draft turn.exchange.effect

theorem copies_along (h : Along (Obeys e) s history s')
    (hposts : ∀ turn ∈ history, IsPost owner company title turn) :
    copies owner company title s'.db =
      copies owner company title s.db + history.countP (adds ·.exchange) := by
  induction h with
  | nil s => rfl
  | cons hobeys _ ih =>
    obtain ⟨⟨user, draft, hcall, hpart⟩, hrest⟩ := List.forall_mem_cons.mp hposts
    rw [ih hrest, copies_step hcall hpart hobeys, List.countP_cons]
    omega

/-- A look finds nothing exactly if nothing was there and nothing was added before it. -/
theorem found_eq_nil_iff (hcall : Concerns owner company title user draft) {place : Nat} {found : List Record}
    (h : Along (Obeys e) s (before ++ ⟨place, ⟨.execute (lookUp user draft), .ok found⟩⟩ :: after) s')
    (hposts : ∀ turn ∈ before, IsPost owner company title turn) :
    found = [] ↔ copies owner company title s.db = 0 ∧ before.countP (adds ·.exchange) = 0 := by
  obtain ⟨s₁, hbefore, hafter⟩ := along_append_iff.mp h
  cases hafter with
  | cons hobeys _ =>
    obtain ⟨-, found', hfound, hnone⟩ := obeys_lookUp hcall hobeys
    cases hfound
    rw [hnone, copies_along hbefore hposts]
    omega

end Along

/-! ## Races of posts -/

theorem exists_split_of_mem_takeWhile {α : Type} {p : α → Bool} {l : List α} {a : α} (h : a ∈ l.takeWhile p) :
    ∃ before after, l = before ++ a :: after ∧ ∀ b ∈ before, p b := by
  induction l with
  | nil => cases h
  | cons c l ih =>
    rw [List.takeWhile_cons] at h
    split at h
    · rename_i hc
      rcases List.mem_cons.mp h with rfl | hmem
      · exact ⟨[], l, rfl, by simp⟩
      · obtain ⟨before, after, rfl, hbefore⟩ := ih hmem
        exact ⟨c :: before, after, rfl, List.forall_mem_cons.mpr ⟨hc, hbefore⟩⟩
    · cases h

theorem exists_split_of_notMem_takeWhile {α : Type} {p : α → Bool} {l : List α} {a : α} (ha : a ∈ l)
    (hp : p a) (h : a ∉ l.takeWhile p) : ∃ before after, l = before ++ a :: after ∧ ∃ b ∈ before, ¬ p b := by
  induction l with
  | nil => cases ha
  | cons c l ih =>
    rw [List.takeWhile_cons] at h
    split at h
    · rw [List.mem_cons, not_or] at h
      obtain ⟨before, after, rfl, b, hb, hpb⟩ := ih ((List.mem_cons.mp ha).resolve_left h.1) h.2
      exact ⟨c :: before, after, rfl, b, List.mem_cons_of_mem c hb, hpb⟩
    · rename_i hc
      have hne : a ≠ c := fun he => hc (he ▸ hp)
      obtain ⟨before, after, rfl⟩ := List.append_of_mem ((List.mem_cons.mp ha).resolve_left hne)
      exact ⟨c :: before, after, rfl, c, List.mem_cons_self, hc⟩

/-- How many posts looked before an item was added. -/
def early (history : List Turn) : Nat :=
  (history.takeWhile fun turn => !adds turn.exchange).countP (looksUp ·.exchange)

section Race

variable {calls : List (String × Draft)} {history : List Turn} {results : List (Except ServiceError Posted)}
  (hcalls : ∀ call ∈ calls, Concerns owner company title call.1 call.2)
  (hrace : Race (Obeys e) s (calls.map fun call => (post call.1 call.2).run) history s' results)
include hcalls hrace

theorem script_of_race {place : Nat} {call : String × Draft} (hcall : calls[place]? = some call) :
    ∃ found, IsScript call.1 call.2 found (turnsAt place history) := by
  obtain ⟨result, -, hplays, hgives⟩ := hrace.exists_result hcall
  have hid := isUuid_of_castUuid (hcalls call (List.mem_of_getElem? hcall)).company
  exact isScript_of_plays hid hplays hgives

theorem isPost_of_race : ∀ turn ∈ history, IsPost owner company title turn := by
  intro turn hturn
  obtain ⟨call, hcall⟩ := hrace.exists_call hturn
  obtain ⟨found, hscript⟩ := script_of_race hcalls hrace hcall
  exact ⟨call.1, call.2, hcalls call (List.mem_of_getElem? hcall),
    hscript.parts _ (exchange_mem_turnsAt hturn)⟩

section Script

variable {place : Nat} {call : String × Draft} {found : List Record}

theorem found_of_race (hcall : calls[place]? = some call) {before after : List Turn}
    (hsplit : history = before ++ ⟨place, ⟨.execute (lookUp call.1 call.2), .ok found⟩⟩ :: after) :
    found = [] ↔ copies owner company title s.db = 0 ∧ before.countP (adds ·.exchange) = 0 := by
  have halong := hrace.along
  have hposts := isPost_of_race hcalls hrace
  rw [hsplit] at halong hposts
  exact found_eq_nil_iff (hcalls call (List.mem_of_getElem? hcall)) halong fun turn hturn =>
    hposts turn (List.mem_append_left _ hturn)

theorem look_mem_early_iff (hcall : calls[place]? = some call)
    (hscript : IsScript call.1 call.2 found (turnsAt place history))
    (hnone : copies owner company title s.db = 0) :
    ⟨place, ⟨.execute (lookUp call.1 call.2), .ok found⟩⟩ ∈
        history.takeWhile (fun turn => !adds turn.exchange) ↔ found = [] := by
  constructor
  · intro hearly
    obtain ⟨before, after, hsplit, hbefore⟩ := exists_split_of_mem_takeWhile hearly
    apply (found_of_race hcalls hrace hcall hsplit).mpr
    refine ⟨hnone, List.countP_eq_zero.mpr ?_⟩
    intro turn hturn
    simpa using hbefore turn hturn
  · intro hfound
    by_contra hlate
    have hlook : (!adds ⟨.execute (lookUp call.1 call.2), .ok found⟩) = true := by
      simp [adds, lookUp, texts_ne.1]
    obtain ⟨before, after, hsplit, turn, hturn, hadds⟩ :=
      exists_split_of_notMem_takeWhile (mem_turnsAt_iff.mp hscript.looks) hlook hlate
    have hzero := ((found_of_race hcalls hrace hcall hsplit).mp hfound).2
    exact List.countP_eq_zero.mp hzero turn hturn (by simpa using hadds)

/-- A post adds its item exactly if it looked early. -/
theorem countP_adds_eq (hcall : calls[place]? = some call)
    (hscript : IsScript call.1 call.2 found (turnsAt place history))
    (hnone : copies owner company title s.db = 0) :
    (turnsAt place history).countP adds =
      (turnsAt place (history.takeWhile fun turn => !adds turn.exchange)).countP looksUp := by
  have hearly := look_mem_early_iff hcalls hrace hcall hscript hnone
  rw [← mem_turnsAt_iff] at hearly
  rw [hscript.adds]
  have hsub : (turnsAt place (history.takeWhile fun turn => !adds turn.exchange)).Sublist
      (turnsAt place history) := ((List.takeWhile_sublist _).filter _).map _
  by_cases hfound : found = []
  · have hpos := List.countP_pos_iff (p := looksUp).mpr ⟨_, hearly.mpr hfound, by simp [looksUp, lookUp]⟩
    have hle := hsub.countP_le (p := looksUp)
    rw [hscript.once] at hle
    rw [if_pos hfound]
    omega
  · rw [if_neg hfound, eq_comm, List.countP_eq_zero]
    intro x hx hlooks
    rw [hscript.only x (hsub.subset hx) hlooks] at hx
    exact hfound (hearly.mp hx)

end Script

theorem countP_adds_history (hnone : copies owner company title s.db = 0) :
    history.countP (adds ·.exchange) = early history := by
  have hplaces : ∀ turn ∈ history, turn.place < calls.length := by
    simpa using hrace.place_lt
  have hearly : ∀ turn ∈ history.takeWhile (fun turn => !adds turn.exchange), turn.place < calls.length :=
    fun turn hturn => hplaces turn ((List.takeWhile_sublist _).subset hturn)
  rw [early, countP_eq_sum_turnsAt adds hplaces, countP_eq_sum_turnsAt looksUp hearly]
  apply Finset.sum_congr rfl
  intro place hplace
  have hcall := List.getElem?_eq_getElem (Finset.mem_range.mp hplace)
  obtain ⟨found, hscript⟩ := script_of_race hcalls hrace hcall
  exact countP_adds_eq hcalls hrace hcall hscript hnone

theorem countP_adds_pos (hne : calls ≠ []) (hnone : copies owner company title s.db = 0) :
    0 < history.countP (adds ·.exchange) := by
  by_contra hzero
  have hquiet : ∀ turn ∈ history, ¬ adds turn.exchange := List.countP_eq_zero.mp (by omega)
  have hcall := List.getElem?_eq_getElem (List.length_pos_iff.mpr hne)
  obtain ⟨found, hscript⟩ := script_of_race hcalls hrace hcall
  have hall : history.takeWhile (fun turn => !adds turn.exchange) = history :=
    List.takeWhile_eq_self_iff.mpr fun turn hturn => by simpa using hquiet turn hturn
  have hearly := look_mem_early_iff hcalls hrace hcall hscript hnone
  rw [hall] at hearly
  have hfound := hearly.mp (mem_turnsAt_iff.mp hscript.looks)
  have hadds := hscript.adds
  rw [if_pos hfound] at hadds
  obtain ⟨x, hx, hadd⟩ := List.countP_pos_iff.mp (hadds ▸ Nat.zero_lt_one)
  exact hquiet _ (mem_turnsAt_iff.mp hx) hadd

theorem countP_adds_eq_zero (hsome : copies owner company title s.db ≠ 0) :
    history.countP (adds ·.exchange) = 0 := by
  apply List.countP_eq_zero.mpr
  intro turn hturn hadd
  obtain ⟨call, hcall⟩ := hrace.exists_call hturn
  obtain ⟨found, hscript⟩ := script_of_race hcalls hrace hcall
  have hpos := List.countP_pos_iff.mpr ⟨_, exchange_mem_turnsAt hturn, hadd⟩
  rw [hscript.adds] at hpos
  split at hpos
  · rename_i hfound
    obtain ⟨before, after, hsplit⟩ := List.append_of_mem (mem_turnsAt_iff.mp hscript.looks)
    exact hsome ((found_of_race hcalls hrace hcall hsplit).mp hfound).1
  · cases hpos

/-- A race of posts of one item adds none if there was one before. If there was none, then there are as
many as there were posts that looked before the first of them was added, and at least one. -/
theorem post_race (hne : calls ≠ []) :
    (0 < copies owner company title s.db → copies owner company title s'.db = copies owner company title s.db) ∧
      (copies owner company title s.db = 0 →
        copies owner company title s'.db = early history ∧ 0 < early history) := by
  have hcount := copies_along hrace.along (isPost_of_race hcalls hrace)
  constructor
  · intro hsome
    rw [hcount, countP_adds_eq_zero hcalls hrace (by omega), Nat.add_zero]
  · intro hnone
    have hearly := countP_adds_history hcalls hrace hnone
    have hpos := countP_adds_pos hcalls hrace hne hnone
    omega

end Race

/-! ## Two posts that both look first -/

def adding (user : String) (draft : Draft) (id : String) (row : Record) : List Exchange :=
  [⟨.execute (lookUp user draft), .ok []⟩, ⟨.freshId, id⟩, ⟨.execute (addition user draft id), .ok [row]⟩]

theorem plays_adding (hid : Uuid.isUuid draft.companyId) (id : String) (row : Record) :
    (post user draft).run.Plays (adding user draft id row) (.ok (.created row)) := by
  unfold post
  rw [if_pos hid]
  exact .ask (.ask (.ask (.done _)))

theorem exists_obeys_addition (hcall : Concerns owner company title user draft) {id : String} {new : Value}
    (hid : castUuid (.text id) = .ok new) (s : Storage) :
    ∃ row s', Obeys e s (.execute (addition user draft id)) (.ok [row]) s' := by
  obtain ⟨row, db', hrun⟩ : ∃ row db', (Query.insert "checklist_items" newColumns newValues false
      (some .all)).run e (addition user draft id).params s.db = .ok ([row], db') := by
    simp only [Query.run, newValues, addition, List.mapM_cons, List.mapM_nil, Operand.bind, argument,
      List.getElem?_cons_zero, List.getElem?_cons_succ, castTo, castBoolean, hid, hcall.owner, hcall.company]
    exact ⟨_, _, rfl⟩
  exact ⟨row, _, (obeys_execute_iff read?_addition).mpr ⟨_, db', hrun, rfl, rfl⟩⟩

def practice (company : String) : Draft := ⟨company, "Practice interview", none, false, "Interview Prep"⟩

theorem early_overlap (id id' : String) (row row' : Record) :
    early (inStep (adding user draft id row) (adding user draft id' row')) = 2 := by
  obtain ⟨hla, -, -⟩ := texts_ne
  simp [early, inStep, adding, adds, looksUp, lookUp, addition, hla]

theorem exists_overlap (e : Engine) :
    ∃ (owner company : Value) (title : String) (calls : List (String × Draft)) (s s' : Storage)
      (history : List Turn) (results : List (Except ServiceError Posted)), calls ≠ [] ∧
      (∀ call ∈ calls, Concerns owner company title call.1 call.2) ∧ copies owner company title s.db = 0 ∧
      Race (Obeys e) s (calls.map fun call => (post call.1 call.2).run) history s' results ∧
      early history = 2 := by
  let user := Uuid.print (List.replicate 32 7)
  let company := Uuid.print (List.replicate 32 8)
  let draft := practice company
  obtain ⟨one, two, hone, htwo, hnew⟩ := exists_two_ids
  have hcall : Concerns (.text user) (.text company) draft.title user draft :=
    ⟨castUuid_replicate (by decide), castUuid_replicate (by decide), rfl⟩
  have hid := isUuid_of_castUuid hcall.company
  let start : Storage := { Storage.empty "/uploads" with issued := [.text two, .text one] }
  obtain ⟨row, s₁, hadd⟩ := exists_obeys_addition (e := e) hcall hone start
  obtain ⟨row', s', hadd'⟩ := exists_obeys_addition (e := e) hcall htwo s₁
  have halong : Along (Obeys e) (Storage.empty "/uploads")
      (inStep (adding user draft one row) (adding user draft two row')) s' :=
    .cons (obeys_lookUp_absent hcall rfl) <| .cons (obeys_lookUp_absent hcall rfl) <|
      .cons ⟨.freshId _ hone List.not_mem_nil, trivial⟩ <| .cons ⟨.freshId _ htwo hnew, trivial⟩ <|
      .cons hadd <| .cons hadd' (.nil _)
  have hrace : Race (Obeys e) (Storage.empty "/uploads")
      ([(user, draft), (user, draft)].map fun call => (post call.1 call.2).run)
      (inStep (adding user draft one row) (adding user draft two row')) s'
      [.ok (.created row), .ok (.created row')] :=
    race_inStep rfl halong (plays_adding hid one row) (plays_adding hid two row')
  have hcalls : ∀ call ∈ [(user, draft), (user, draft)], Concerns (.text user) (.text company)
      draft.title call.1 call.2 := by
    intro call hmem
    rcases List.mem_pair.mp hmem with rfl | rfl
    · exact hcall
    · exact hcall
  exact ⟨_, _, _, _, _, s', _, _, List.cons_ne_nil _ _, hcalls, rfl, hrace, early_overlap ..⟩

/-- Two posts that both look before either adds the item. -/
theorem post_race_overlap :
    ∃ (owner company : Value) (title : String) (calls : List (String × Draft)) (s s' : Storage)
      (history : List Turn) (results : List (Except ServiceError Posted)), calls ≠ [] ∧
      (∀ call ∈ calls, Concerns owner company title call.1 call.2) ∧
      Race (Obeys .plain) s (calls.map fun call => (post call.1 call.2).run) history s' results ∧
      (0 < copies owner company title s.db →
        copies owner company title s'.db = copies owner company title s.db) ∧
      (copies owner company title s.db = 0 →
        copies owner company title s'.db = early history ∧ 0 < early history) := by
  obtain ⟨owner, company, title, calls, s, s', history, results, hne, hcalls, -, hrace, -⟩ :=
    exists_overlap .plain
  exact ⟨owner, company, title, calls, s, s', history, results, hne, hcalls, hrace,
    post_race hcalls hrace hne⟩

/-- Both posts add the item. -/
theorem post_race_two_items :
    ¬ ∀ (e : Engine) (owner company : Value) (title : String) (calls : List (String × Draft))
      (s s' : Storage) (history : List Turn) (results : List (Except ServiceError Posted)), calls ≠ [] →
      (∀ call ∈ calls, Concerns owner company title call.1 call.2) → copies owner company title s.db ≤ 1 →
      Race (Obeys e) s (calls.map fun call => (post call.1 call.2).run) history s' results →
        copies owner company title s'.db = 1 := by
  intro law
  obtain ⟨owner, company, title, calls, s, s', history, results, hne, hcalls, hnone, hrace, hearly⟩ :=
    exists_overlap .plain
  have hone := law .plain owner company title calls s s' history results hne hcalls (by omega) hrace
  have hcount := copies_along hrace.along (isPost_of_race hcalls hrace)
  rw [countP_adds_history hcalls hrace hnone, hearly, hone, hnone] at hcount
  exact absurd hcount (by decide)

end JobTrail.Checklist
