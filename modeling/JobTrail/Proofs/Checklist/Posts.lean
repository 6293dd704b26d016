import JobTrail.Proofs.Checklist.Races

/-!
# Posting an item again

What a post of a checklist item does to storage when nothing else is done meanwhile. It adds the item if the
user does not have it and refreshes it otherwise, so a user never gets a second item by posting. An item
that was just posted is not changed by a refreshment with the same values, so posting it again changes
nothing, unless there are copies of it from before and storage picks another of them.
-/

set_option maxRecDepth 8192

namespace JobTrail.Checklist

open Sql Storage

variable {e : Engine} {s s' s₁ s₂ : Storage} {user : String} {owner company : Value} {draft : Draft}

/-- The ids of the rows of a table are UUIDs that were given out. -/
def Keyed (table : String) (s : Storage) : Prop :=
  ∀ r ∈ s.db.rows table, castUuid (r.column "id") = .ok (r.column "id") ∧ r.column "id" ≠ .null ∧
    r.column "id" ∈ s.issued

/-! ## Rows that posts make -/

/-- The text, or the old one if none is given. -/
def orOld (given : Value) (column : String) (r : Record) : Value :=
  if given.isNull then r.column column else given

def refreshments (draft : Draft) : List (String × (Record → Value)) :=
  [("completed", fun _ => .bool draft.completed),
    ("description", orOld (.ofText? draft.description) "description"),
    ("category", orOld (.text draft.category) "category")]

def refreshedRow (draft : Draft) (r : Record) : Record := change (refreshments draft) r

def newItem (e : Engine) (id owner company : Value) (draft : Draft) : Record :=
  newRow e "checklist_items" newColumns [id, company, owner, .text draft.title, .ofText? draft.description,
    .bool draft.completed, .text draft.category]

/-- A row says of the item what was posted. -/
structure Carries (draft : Draft) (r : Record) : Prop where
  completed : r.column "completed" = .bool draft.completed
  category : r.column "category" = .text draft.category
  description : ∀ text, draft.description = some text → r.column "description" = .text text

theorem refreshments_nodup (draft : Draft) : ((refreshments draft).map (·.1)).Nodup := by
  simp [refreshments]

theorem column_refreshedRow {c : String} (h : c ∉ ["completed", "description", "category"]) (draft : Draft)
    (r : Record) : (refreshedRow draft r).column c = r.column c := by
  refine column_change _ r ?_
  intro set hset he
  exact h (he ▸ List.mem_map_of_mem (f := (·.1)) hset)

theorem isItem_refreshedRow {title : String} (draft : Draft) (r : Record) :
    IsItem owner company title (refreshedRow draft r) ↔ IsItem owner company title r := by
  rw [IsItem, column_refreshedRow (by decide), column_refreshedRow (by decide),
    column_refreshedRow (by decide), IsItem]

theorem carries_refreshedRow (draft : Draft) (r : Record) : Carries draft (refreshedRow draft r) := by
  have hcolumn : ∀ set ∈ refreshments draft, (refreshedRow draft r).column set.1 = set.2 r := fun set hset =>
    column_change_of_mem (refreshments_nodup draft) hset r
  simp only [refreshments, List.forall_mem_cons] at hcolumn
  obtain ⟨hcompleted, hdescription, hcategory, -⟩ := hcolumn
  refine ⟨hcompleted, hcategory, ?_⟩
  intro text htext
  rw [hdescription, htext]
  rfl

/-- A row is not changed by values that it has. -/
theorem refreshedRow_eq_self {r : Record} (h : ∀ set ∈ refreshments draft, r.get? set.1 = some (set.2 r)) :
    refreshedRow draft r = r := change_eq_self h

theorem refreshedRow_idem (draft : Draft) (r : Record) :
    refreshedRow draft (refreshedRow draft r) = refreshedRow draft r := by
  have hget : ∀ set ∈ refreshments draft, (refreshedRow draft r).get? set.1 = some (set.2 r) := fun set hset =>
    get?_change_of_mem (refreshments_nodup draft) hset r
  have hkept : ∀ given column, (refreshedRow draft r).column column = orOld given column r →
      orOld given column (refreshedRow draft r) = orOld given column r := by
    intro given column h
    unfold orOld at h ⊢
    split
    · rename_i hnull
      rw [h, if_pos hnull]
    · rfl
  apply refreshedRow_eq_self
  simp only [refreshments, List.forall_mem_cons] at hget ⊢
  obtain ⟨hcompleted, hdescription, hcategory, hnone⟩ := hget
  rw [hkept _ _ (Record.column_eq_of_get? hdescription), hkept _ _ (Record.column_eq_of_get? hcategory)]
  exact ⟨hcompleted, hdescription, hcategory, by simp⟩

theorem isItem_newItem (e : Engine) (id owner company : Value) (draft : Draft) :
    IsItem owner company draft.title (newItem e id owner company draft) := by
  simp [IsItem, newItem, newRow, newColumns, Record.column_cons]

theorem id_newItem (e : Engine) (id owner company : Value) (draft : Draft) :
    (newItem e id owner company draft).column "id" = id := by
  simp [newItem, newRow, newColumns, Record.column_cons]

theorem carries_newItem (e : Engine) (id owner company : Value) (draft : Draft) :
    Carries draft (newItem e id owner company draft) := by
  constructor
  · simp [newItem, newRow, newColumns, Record.column_cons]
  · simp [newItem, newRow, newColumns, Record.column_cons]
  · intro text htext
    simp [newItem, newRow, newColumns, Record.column_cons, htext, Value.ofText?, Value.ofOption]

theorem refreshedRow_newItem (e : Engine) (id owner company : Value) (draft : Draft) :
    refreshedRow draft (newItem e id owner company draft) = newItem e id owner company draft := by
  apply refreshedRow_eq_self
  have hdescription : (newItem e id owner company draft).get? "description" = some (.ofText? draft.description) := by
    simp [newItem, newRow, newColumns, Record.get?_cons]
  have hkept : orOld (.ofText? draft.description) "description" (newItem e id owner company draft)
      = .ofText? draft.description := by
    rw [orOld, Record.column_eq_of_get? hdescription, ite_self]
  simp only [refreshments, List.forall_mem_cons, hkept]
  refine ⟨?_, hdescription, ?_, by simp⟩
  · simp [newItem, newRow, newColumns, Record.get?_cons]
  · simp [newItem, newRow, newColumns, Record.get?_cons, orOld, Value.isNull]

/-! ## What the statements do -/

theorem run_addition {id : String} {new : Value} (hid : castUuid (.text id) = .ok new)
    (hcall : Concerns owner company draft.title user draft) (db : Database) :
    (Query.insert "checklist_items" newColumns newValues false (some .all)).run e (addition user draft id).params db
      = .ok ([newItem e new owner company draft],
          db.set "checklist_items" (db.rows "checklist_items" ++ [newItem e new owner company draft])) := by
  simp only [Query.run, newValues, addition, List.mapM_cons, List.mapM_nil, Operand.bind, argument,
    List.getElem?_cons_zero, List.getElem?_cons_succ, castTo, castBoolean, hid, hcall.owner, hcall.company]
  rfl

theorem run_refreshment {id : Value} (hid : castUuid id = .ok id) (hne : id ≠ .null) (db : Database) :
    (Query.update "checklist_items" refreshed [.equals "id" (.parameter 3 (some "uuid"))] (some .all)).run e
        (refreshment id draft).params db
      = .ok (((db.rows "checklist_items").filter (·.column "id" = id)).map (refreshedRow draft),
          db.set "checklist_items" ((db.rows "checklist_items").map fun r =>
            if r.column "id" = id then refreshedRow draft r else r)) := by
  have hsets : bindSets e (refreshment id draft).params refreshed = .ok (refreshments draft) := rfl
  have hcast : castTo e id (some "uuid") = .ok id := hid
  rw [run_update_eq hsets, bindAll_singleton, bind_equals rfl hcast hne]
  simp only [Except.map, answerRows, Columns.pick, List.map_id', decide_eq_true_eq]
  rfl

/-! ## Posts that run alone -/

def added (e : Engine) (new owner company : Value) (draft : Draft) (s : Storage) : Storage :=
  { s.set "checklist_items" (s.db.rows "checklist_items" ++ [newItem e new owner company draft]) with
    issued := new :: s.issued }

def refreshedAt (id : Value) (draft : Draft) (s : Storage) : Storage :=
  s.set "checklist_items" ((s.db.rows "checklist_items").map fun r =>
    if r.column "id" = id then refreshedRow draft r else r)

/-- What a post answers and what storage is after it. -/
inductive Posts (e : Engine) (owner company : Value) (draft : Draft) (s : Storage) : Posted → Storage → Prop where
  | adds {new : Value} : copies owner company draft.title s.db = 0 → castUuid new = .ok new → new ≠ .null →
      new ∉ s.issued → Posts e owner company draft s (.created (newItem e new owner company draft))
        (added e new owner company draft s)
  | refreshes {item row : Record} : item ∈ s.db.rows "checklist_items" →
      IsItem owner company draft.title item → row ∈ s.db.rows "checklist_items" →
      row.column "id" = item.column "id" → Posts e owner company draft s (.updated (refreshedRow draft row))
        (refreshedAt (item.column "id") draft s)

/-- The items that a look finds. -/
def found (e : Engine) (owner company : Value) (title : String) (db : Database) : List Record :=
  e.arrange [] ((db.rows "checklist_items").filter (IsItem owner company title ·))

theorem mem_found {title : String} {db : Database} {r : Record} :
    r ∈ found e owner company title db ↔ r ∈ db.rows "checklist_items" ∧ IsItem owner company title r := by
  rw [found, (e.arrange_perm _ _).mem_iff, List.mem_filter, decide_eq_true_iff]

theorem found_eq_nil {title : String} {db : Database} :
    found e owner company title db = [] ↔ copies owner company title db = 0 := by
  rw [found, arrange_eq_nil_iff, filter_eq_nil_iff_copies]

theorem runs_lookUp_iff (hcall : Concerns owner company draft.title user draft)
    {x : Except ServiceError (List Record)} :
    (Service.execute lookUpText (lookUp user draft).params).run.Runs e s x s' ↔
      x = .ok ((found e owner company draft.title s.db).map fun r => Columns.pick r (.these ["id"])) ∧ s' = s :=
  runs_read_iff (y := .ok _) read?_lookUp (run_lookUp hcall s.db)

theorem runs_add_iff (hcall : Concerns owner company draft.title user draft) {x : Except ServiceError Record} :
    (add user draft).run.Runs e s x s' ↔ ∃ id new, castUuid (.text id) = .ok new ∧ new ∉ s.issued ∧
      x = .ok (newItem e new owner company draft) ∧ s' = added e new owner company draft s := by
  have hexecute : ∀ {id : String} {new : Value}, castUuid (.text id) = .ok new → ∀ {y s₁ s₂},
      (Service.execute additionText (addition user draft id).params).run.Runs e s₁ y s₂ ↔
        y = .ok [newItem e new owner company draft] ∧
          s₂ = s₁.set "checklist_items" (s₁.db.rows "checklist_items" ++ [newItem e new owner company draft]) := by
    intro id new hid y s₁ s₂
    exact runs_execute_ok_iff read?_addition (run_addition hid hcall s₁.db)
  rw [add, runs_andThen_iff]
  simp only [runs_freshId_iff]
  constructor
  · rintro (⟨given, s₁, ⟨id, new, hid, hnew, hgiven, rfl⟩, hrest⟩ | ⟨err, ⟨id, new, -, -, hx, -⟩, -⟩)
    · cases hgiven
      rcases runs_andThen_iff.mp hrest with ⟨rows, s₂, hadd, hfirst⟩ | ⟨err, hadd, -⟩
      · obtain ⟨hrows, rfl⟩ := (hexecute hid).mp hadd
        cases hrows
        rcases runs_first_iff.mp hfirst with ⟨rfl, ⟨row, hrow, rfl⟩ | ⟨hnil, -⟩⟩
        · cases hrow
          exact ⟨id, new, hid, hnew, rfl, rfl⟩
        · cases hnil
      · cases ((hexecute hid).mp hadd).1
    · cases hx
  · rintro ⟨id, new, hid, hnew, rfl, rfl⟩
    refine .inl ⟨.text id, _, ⟨id, new, hid, hnew, rfl, rfl⟩, ?_⟩
    exact Runs.andThen ((hexecute hid).mpr ⟨rfl, rfl⟩) (runs_first_iff.mpr ⟨rfl, .inl ⟨_, rfl, rfl⟩⟩)

theorem runs_refresh_iff {id : Value} (hid : castUuid id = .ok id) (hne : id ≠ .null)
    (hrow : ∃ r ∈ s.db.rows "checklist_items", r.column "id" = id) {x : Except ServiceError Record} :
    (refresh id draft).run.Runs e s x s' ↔
      (∃ row, ((s.db.rows "checklist_items").filter (·.column "id" = id)).head? = some row ∧
        x = .ok (refreshedRow draft row)) ∧ s' = refreshedAt id draft s := by
  have hexecute : ∀ {y s₁}, (Service.execute refreshmentText (refreshment id draft).params).run.Runs e s y s₁ ↔
      y = .ok (((s.db.rows "checklist_items").filter (·.column "id" = id)).map (refreshedRow draft)) ∧
        s₁ = refreshedAt id draft s :=
    fun {y s₁} => runs_execute_ok_iff read?_refreshment (run_refreshment hid hne s.db)
  rw [refresh, runs_andThen_iff]
  constructor
  · rintro (⟨rows, s₁, hupdate, hfirst⟩ | ⟨err, hupdate, -⟩)
    · obtain ⟨hrows, rfl⟩ := hexecute.mp hupdate
      cases hrows
      obtain ⟨rfl, ⟨row, hhead, rfl⟩ | ⟨hnil, -⟩⟩ := runs_first_iff.mp hfirst
      · rw [List.head?_map] at hhead
        obtain ⟨r, hr, rfl⟩ := Option.map_eq_some_iff.mp hhead
        exact ⟨⟨r, hr, rfl⟩, rfl⟩
      · obtain ⟨r, hr, hid⟩ := hrow
        have hmem : r ∈ (s.db.rows "checklist_items").filter (·.column "id" = id) :=
          List.mem_filter.mpr ⟨hr, decide_eq_true hid⟩
        rw [List.map_eq_nil_iff.mp hnil] at hmem
        cases hmem
    · cases (hexecute.mp hupdate).1
  · rintro ⟨⟨row, hhead, rfl⟩, rfl⟩
    refine .inl ⟨_, _, hexecute.mpr ⟨rfl, rfl⟩, runs_first_iff.mpr ⟨rfl, .inl ⟨refreshedRow draft row, ?_, rfl⟩⟩⟩
    rw [List.head?_map, hhead]
    rfl

/-- The id that a look answers is that of an item. -/
theorem column_pick_id (r : Record) : (Columns.pick r (.these ["id"])).column "id" = r.column "id" :=
  Record.column_map _ _ (by simp)

/-- A post does not fail. -/
theorem posts_of_runs (hcall : Concerns owner company draft.title user draft) (hkeyed : Keyed "checklist_items" s)
    {x : Except ServiceError Posted} (hruns : (post user draft).run.Runs e s x s') :
    ∃ posted, x = .ok posted ∧ Posts e owner company draft s posted s' := by
  unfold post at hruns
  rw [if_pos (isUuid_of_castUuid hcall.company)] at hruns
  replace hruns := (runs_andThen_ok_iff fun _ _ => runs_lookUp_iff hcall).mp hruns
  rw [List.head?_map] at hruns
  cases hfound : found e owner company draft.title s.db with
  | nil =>
    rw [hfound] at hruns
    rcases runs_andThen_iff.mp hruns with ⟨row, s₂, hadd, hdone⟩ | ⟨err, hadd, -⟩
    · obtain ⟨id, new, hid, hnew, hrow, rfl⟩ := (runs_add_iff hcall).mp hadd
      cases hrow
      obtain ⟨rfl, rfl⟩ := runs_pure_iff.mp hdone
      exact ⟨_, rfl, .adds (found_eq_nil.mp hfound) (castUuid_idem hid) (ne_null_of_castUuid hid) hnew⟩
    · obtain ⟨_, _, -, -, hx, -⟩ := (runs_add_iff hcall).mp hadd
      cases hx
  | cons item others =>
    rw [hfound] at hruns
    dsimp only [List.head?, Option.map] at hruns
    obtain ⟨hmem, hitem⟩ := mem_found.mp (hfound ▸ List.mem_cons_self)
    obtain ⟨hcast, hne, -⟩ := hkeyed item hmem
    rw [column_pick_id] at hruns
    have hrefresh : ∀ {x s₂}, (refresh (item.column "id") draft).run.Runs e s x s₂ ↔ _ :=
      runs_refresh_iff hcast hne ⟨item, hmem, rfl⟩
    rcases runs_andThen_iff.mp hruns with ⟨row, s₂, hrun, hdone⟩ | ⟨err, hrun, -⟩
    · obtain ⟨⟨old, hold, hrow⟩, rfl⟩ := hrefresh.mp hrun
      cases hrow
      obtain ⟨rfl, rfl⟩ := runs_pure_iff.mp hdone
      obtain ⟨hmem', hid⟩ := List.mem_filter.mp (List.mem_of_head? hold)
      exact ⟨_, rfl, .refreshes hmem hitem hmem' (of_decide_eq_true hid)⟩
    · obtain ⟨⟨_, -, hx⟩, -⟩ := hrefresh.mp hrun
      cases hx

/-- A post can run as long as an id is left for a new item. -/
theorem exists_runs_post (hcall : Concerns owner company draft.title user draft) (hkeyed : Keyed "checklist_items" s)
    (hfresh : copies owner company draft.title s.db = 0 →
      ∃ id new, castUuid (.text id) = .ok new ∧ new ∉ s.issued) :
    ∃ x s', (post user draft).run.Runs e s x s' := by
  unfold post
  rw [if_pos (isUuid_of_castUuid hcall.company)]
  have hlook := (runs_lookUp_iff (e := e) (s := s) hcall).mpr ⟨rfl, rfl⟩
  cases hfound : found e owner company draft.title s.db with
  | nil =>
    rw [hfound] at hlook
    obtain ⟨id, new, hid, hnew⟩ := hfresh (found_eq_nil.mp hfound)
    exact ⟨_, _, Runs.andThen hlook (Runs.andThen ((runs_add_iff hcall).mpr ⟨id, new, hid, hnew, rfl, rfl⟩)
      (runs_pure_iff.mpr ⟨rfl, rfl⟩))⟩
  | cons item others =>
    rw [hfound] at hlook
    obtain ⟨hmem, -⟩ := mem_found.mp (hfound ▸ List.mem_cons_self)
    obtain ⟨hcast, hne, -⟩ := hkeyed item hmem
    have hrow : item ∈ (s.db.rows "checklist_items").filter (·.column "id" = item.column "id") :=
      List.mem_filter.mpr ⟨hmem, decide_eq_true rfl⟩
    obtain ⟨row, hhead⟩ := Option.isSome_iff_exists.mp (List.isSome_head?.mpr (List.ne_nil_of_mem hrow))
    refine ⟨.ok (.updated (refreshedRow draft row)), refreshedAt (item.column "id") draft s,
      Runs.andThen hlook ?_⟩
    simp only [List.map_cons, List.head?_cons, column_pick_id]
    refine Runs.andThen ((runs_refresh_iff hcast hne ⟨item, hmem, rfl⟩).mpr ?_) (runs_pure_iff.mpr ⟨rfl, rfl⟩)
    exact ⟨⟨row, hhead, rfl⟩, rfl⟩

/-! ## A post and the same post again -/

namespace Posts

variable {posted : Posted}

theorem rows_refreshedAt (id : Value) (draft : Draft) (s : Storage) :
    (refreshedAt id draft s).db.rows "checklist_items" = (s.db.rows "checklist_items").map fun r =>
      if r.column "id" = id then refreshedRow draft r else r := rfl

theorem rows_added (e : Engine) (new owner company : Value) (draft : Draft) (s : Storage) :
    (added e new owner company draft s).db.rows "checklist_items" =
      s.db.rows "checklist_items" ++ [newItem e new owner company draft] := rfl

theorem copies_pos {title : String} {r : Record} (hr : r ∈ s.db.rows "checklist_items")
    (hitem : IsItem owner company title r) : 0 < copies owner company title s.db :=
  List.countP_pos_iff.mpr ⟨r, hr, decide_eq_true hitem⟩

theorem copies_refreshedAt (id : Value) (title : String) :
    copies owner company title (refreshedAt id draft s).db = copies owner company title s.db := by
  have hkeeps : ∀ r, IsItem owner company title (if r.column "id" = id then refreshedRow draft r else r) ↔
      IsItem owner company title r := by
    intro r
    split
    · exact isItem_refreshedRow draft r
    · exact Iff.rfl
  simp only [copies, rows_refreshedAt, List.countP_map, Function.comp_def, hkeeps]

theorem copies_added (new : Value) :
    copies owner company draft.title (added e new owner company draft s).db
      = copies owner company draft.title s.db + 1 := by
  simp [copies, rows_added, List.countP_append, isItem_newItem]

/-- The row that is answered is stored, and it says what was posted. -/
theorem answers (h : Posts e owner company draft s posted s') :
    ∃ row ∈ s'.db.rows "checklist_items", Carries draft row ∧
      posted = if copies owner company draft.title s.db = 0 then .created row else .updated row := by
  cases h with
  | @adds new hnone _ _ _ =>
    refine ⟨newItem e new owner company draft, ?_, carries_newItem e new owner company draft, (if_pos hnone).symm⟩
    rw [rows_added]
    exact List.mem_append_right _ List.mem_cons_self
  | @refreshes item row hmem hitem hrow hid =>
    refine ⟨refreshedRow draft row, ?_, carries_refreshedRow draft row, (if_neg (copies_pos hmem hitem).ne').symm⟩
    rw [rows_refreshedAt]
    exact List.mem_map.mpr ⟨row, hrow, if_pos hid⟩

theorem copies_eq (h : Posts e owner company draft s posted s') :
    copies owner company draft.title s'.db = max 1 (copies owner company draft.title s.db) := by
  cases h with
  | adds hnone _ _ _ => rw [copies_added, hnone, Nat.max_eq_left (Nat.zero_le 1)]
  | refreshes hmem hitem _ _ => rw [copies_refreshedAt, Nat.max_eq_right (copies_pos hmem hitem)]

theorem keyed (h : Posts e owner company draft s posted s') (hkeyed : Keyed "checklist_items" s) :
    Keyed "checklist_items" s' := by
  cases h with
  | adds _ hcast hne _ =>
    intro r hr
    rw [rows_added] at hr
    rcases List.mem_append.mp hr with hr | hr
    · obtain ⟨hcast', hne', hissued⟩ := hkeyed r hr
      exact ⟨hcast', hne', List.mem_cons_of_mem _ hissued⟩
    · obtain rfl := List.mem_singleton.mp hr
      rw [id_newItem]
      exact ⟨hcast, hne, List.mem_cons_self⟩
  | refreshes _ _ _ _ =>
    intro r' hr'
    rw [rows_refreshedAt] at hr'
    obtain ⟨r, hr, rfl⟩ := List.mem_map.mp hr'
    split
    · rw [column_refreshedRow (by decide)]
      exact hkeyed r hr
    · exact hkeyed r hr

theorem eq_of_countP_le_one {α : Type} {p : α → Bool} {l : List α} (h : l.countP p ≤ 1) {a b : α} (ha : a ∈ l)
    (hpa : p a) (hb : b ∈ l) (hpb : p b) : a = b := by
  rw [List.countP_eq_length_filter] at h
  have ha' := List.mem_filter.mpr ⟨ha, hpa⟩
  have hb' := List.mem_filter.mpr ⟨hb, hpb⟩
  match hl : l.filter p, h with
  | [], _ => rw [hl] at ha'; cases ha'
  | [c], _ =>
    rw [hl] at ha' hb'
    rw [List.mem_singleton.mp ha', List.mem_singleton.mp hb']

/-- The rows with the id of the only item are as a post of it has left them. -/
theorem refreshedRow_of_id (h : Posts e owner company draft s posted s') (hkeyed : Keyed "checklist_items" s)
    (hone : copies owner company draft.title s.db ≤ 1) {item r : Record}
    (hitem : item ∈ s'.db.rows "checklist_items") (his : IsItem owner company draft.title item)
    (hr : r ∈ s'.db.rows "checklist_items") (hid : r.column "id" = item.column "id") : refreshedRow draft r = r := by
  cases h with
  | @adds new hnone _ _ hnew =>
    have hnewest : item = newItem e new owner company draft := by
      rcases List.mem_append.mp hitem with hold | hlast
      · exact absurd hnone (copies_pos hold his).ne'
      · exact List.mem_singleton.mp hlast
    rcases List.mem_append.mp hr with hold | hlast
    · rw [hnewest, id_newItem] at hid
      exact absurd (hid ▸ (hkeyed r hold).2.2) hnew
    · rw [List.mem_singleton.mp hlast, refreshedRow_newItem]
  | @refreshes item₀ row hmem₀ his₀ _ _ =>
    rw [rows_refreshedAt] at hitem hr
    obtain ⟨old, hold, rfl⟩ := List.mem_map.mp hitem
    obtain ⟨before, hbefore, rfl⟩ := List.mem_map.mp hr
    have hkeepsId : ∀ q : Record, (if q.column "id" = item₀.column "id" then refreshedRow draft q else q).column "id"
        = q.column "id" := by
      intro q
      split
      · exact column_refreshedRow (by decide) draft q
      · rfl
    have hsame : old = item₀ := by
      refine eq_of_countP_le_one hone hold (decide_eq_true ?_) hmem₀ (decide_eq_true his₀)
      split at his
      · exact (isItem_refreshedRow draft old).mp his
      · exact his
    rw [hkeepsId, hkeepsId, hsame] at hid
    rw [if_pos hid, refreshedRow_idem]

theorem again {posted' : Posted} {s'' : Storage} (h : Posts e owner company draft s posted s')
    (hkeyed : Keyed "checklist_items" s) (h' : Posts e owner company draft s' posted' s'') :
    (∃ row, posted' = .updated row) ∧ (copies owner company draft.title s.db ≤ 1 → s'' = s') := by
  cases h' with
  | adds hnone _ _ _ =>
    rw [h.copies_eq] at hnone
    omega
  | @refreshes item row hmem hitem _ _ =>
    refine ⟨⟨_, rfl⟩, fun hone => ?_⟩
    have hrows : ((s'.db.rows "checklist_items").map fun r =>
        if r.column "id" = item.column "id" then refreshedRow draft r else r) = s'.db.rows "checklist_items" := by
      conv_rhs => rw [← List.map_id (s'.db.rows "checklist_items")]
      refine List.map_congr_left fun r hr => ?_
      split
      · rename_i hid
        exact h.refreshedRow_of_id hkeyed hone hmem hitem hr hid
      · rfl
    rw [refreshedAt, hrows, Storage.set, set_rows_self]

end Posts

/-- A post answers a stored row with what was posted, and afterwards the user has the item as often as
before, but at least once. The same post again is answered as a refreshment, and it changes nothing if the
user had the item at most once before. -/
theorem post_again (hcall : Concerns owner company draft.title user draft) (hkeyed : Keyed "checklist_items" s)
    {x y : Except ServiceError Posted} (hpost : (post user draft).run.Runs e s x s₁)
    (hagain : (post user draft).run.Runs e s₁ y s₂) :
    (∃ row ∈ s₁.db.rows "checklist_items", Carries draft row ∧
        x = .ok (if copies owner company draft.title s.db = 0 then .created row else .updated row)) ∧
      copies owner company draft.title s₁.db = max 1 (copies owner company draft.title s.db) ∧
      (∃ row, y = .ok (.updated row)) ∧
      (copies owner company draft.title s.db ≤ 1 → s₂ = s₁) := by
  obtain ⟨posted, rfl, hfirst⟩ := posts_of_runs hcall hkeyed hpost
  obtain ⟨posted', rfl, hsecond⟩ := posts_of_runs hcall (hfirst.keyed hkeyed) hagain
  obtain ⟨row, hrow, hcarries, rfl⟩ := hfirst.answers
  obtain ⟨⟨row', rfl⟩, hsame⟩ := hfirst.again hkeyed hsecond
  exact ⟨⟨row, hrow, hcarries, rfl⟩, hfirst.copies_eq, ⟨row', rfl⟩, hsame⟩

/-- A post to empty tables, and the same post again. -/
theorem post_again_practice :
    ∃ (user : String) (draft : Draft) (owner company : Value) (x y : Except ServiceError Posted)
      (s s₁ s₂ : Storage), Concerns owner company draft.title user draft ∧ Keyed "checklist_items" s ∧
      (post user draft).run.Runs .plain s x s₁ ∧ (post user draft).run.Runs .plain s₁ y s₂ ∧
      (∃ row ∈ s₁.db.rows "checklist_items", Carries draft row ∧
        x = .ok (if copies owner company draft.title s.db = 0 then .created row else .updated row)) ∧
      copies owner company draft.title s₁.db = max 1 (copies owner company draft.title s.db) ∧
      (∃ row, y = .ok (.updated row)) ∧
      (copies owner company draft.title s.db ≤ 1 → s₂ = s₁) := by
  let user := Uuid.print (List.replicate 32 7)
  let company := Uuid.print (List.replicate 32 8)
  let one := Uuid.print (List.replicate 32 1)
  have hone : castUuid (.text one) = .ok (.text one) := castUuid_replicate (by decide)
  have hcall : Concerns (.text user) (.text company) (practice company).title user (practice company) :=
    ⟨castUuid_replicate (by decide), castUuid_replicate (by decide), rfl⟩
  have hkeyed : Keyed "checklist_items" (Storage.empty "/uploads") := fun r hr => nomatch hr
  obtain ⟨x, s₁, hpost⟩ := exists_runs_post (e := .plain) hcall hkeyed fun _ =>
    ⟨one, _, hone, List.not_mem_nil⟩
  obtain ⟨posted, -, hfirst⟩ := posts_of_runs hcall hkeyed hpost
  obtain ⟨y, s₂, hagain⟩ := exists_runs_post (e := .plain) hcall (hfirst.keyed hkeyed) fun hnone =>
    absurd (hfirst.copies_eq.symm.trans hnone) (by omega)
  exact ⟨user, practice company, .text user, .text company, x, y, _, s₁, s₂, hcall, hkeyed, hpost, hagain,
    post_again hcall hkeyed hpost hagain⟩

end JobTrail.Checklist
