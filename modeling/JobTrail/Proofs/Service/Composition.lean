import Mathlib.Data.List.Forall2
import JobTrail.Proofs.Task.Scripts

/-!
# Composed services

A service is put together from single requests to storage, each of which may depend on what the earlier ones
were answered, and from rows that are added under an id drawn for that row alone. Three laws follow by
induction on the composition. Its statements are the ones that were put in. A request that fails is its last.
And two runs, however their ids were drawn, ask for the same as long as storage answers them alike.

Nothing is assumed here of the answers or of the ids: ids may repeat, and storage may answer anything.
-/

namespace JobTrail

/-! ## What storage is asked and what it answers -/

/-- What storage answers to a request. -/
inductive Exchange.Reply where
  | rows (x : Except DatabaseError (List Record))
  | stored (x : Except BlobError String)
  | loaded (x : Except BlobError (Option ByteArray))
  | located (x : Option String)

namespace Exchange

def statement? : Exchange → Option Statement
  | ⟨.execute s, _⟩ => some s
  | _ => none

def reply? : Exchange → Option Reply
  | ⟨.execute _, x⟩ => some (.rows x)
  | ⟨.putBlob .., x⟩ => some (.stored x)
  | ⟨.getBlob _, x⟩ => some (.loaded x)
  | ⟨.locateBlob _, x⟩ => some (.located x)
  | ⟨.freshId, _⟩ | ⟨.freshSalt, _⟩ | ⟨.lookUp _, _⟩ => none

def id? : Exchange → Option String
  | ⟨.freshId, id⟩ => some id
  | _ => none

/-- The error of a request that failed, given what becomes of database errors. -/
def failure? (failure : DatabaseError → ServiceError) : Exchange → Option ServiceError
  | ⟨.execute _, .error err⟩ => some (failure err)
  | ⟨.putBlob .., .error err⟩ => some (.blob err)
  | ⟨.getBlob _, .error err⟩ => some (.blob err)
  | _ => none

end Exchange

namespace Script

def statements (script : List Exchange) : List Statement := script.filterMap Exchange.statement?

def replies (script : List Exchange) : List Exchange.Reply := script.filterMap Exchange.reply?

/-- The ids that were drawn, in order. -/
def ids (script : List Exchange) : List String := script.filterMap Exchange.id?

variable {a b : List Exchange}

@[simp] theorem statements_append : statements (a ++ b) = statements a ++ statements b :=
  List.filterMap_append

@[simp] theorem replies_append : replies (a ++ b) = replies a ++ replies b := List.filterMap_append

@[simp] theorem ids_append : ids (a ++ b) = ids a ++ ids b := List.filterMap_append

end Script

/-- Statements of two runs that differ at most in ids drawn at the same turn. -/
structure Statement.SameUpTo (drawn : List (String × String)) (s s' : Statement) : Prop where
  sql : s.sql = s'.sql
  params : List.Forall₂ (fun v v' => v = v' ∨ ∃ p ∈ drawn, v = .text p.1 ∧ v' = .text p.2) s.params s'.params

namespace Statement.SameUpTo

variable {drawn drawn' : List (String × String)} {s s' : Statement}

theorem mono (h : s.SameUpTo drawn s') (hdrawn : drawn ⊆ drawn') : s.SameUpTo drawn' s' where
  sql := h.sql
  params := h.params.imp fun _ _ hv => hv.imp id fun ⟨p, hp, hids⟩ => ⟨p, hdrawn hp, hids⟩

theorem refl (s : Statement) : s.SameUpTo drawn s := ⟨rfl, List.forall₂_same.mpr fun _ _ => .inl rfl⟩

theorem of_first {id id' : String} (sql : String) (params : List Value) (h : (id, id') ∈ drawn) :
    SameUpTo drawn ⟨sql, .text id :: params⟩ ⟨sql, .text id' :: params⟩ :=
  ⟨rfl, .cons (.inr ⟨(id, id'), h, rfl, rfl⟩) (refl ⟨sql, params⟩).params⟩

end Statement.SameUpTo

namespace Script

/-- The ids that two runs drew at the same turns. -/
def drawn (script script' : List Exchange) : List (String × String) := (ids script).zip (ids script')

/-- Two scripts ask for the same statements, up to the ids drawn for them. -/
structure Alike (script script' : List Exchange) : Prop where
  ids : (ids script).length = (ids script').length
  statements : List.Forall₂ (Statement.SameUpTo (drawn script script')) (statements script) (statements script')

namespace Alike

variable {a a' b b' : List Exchange}

theorem drawn_append (h : Alike a a') : drawn (a ++ b) (a' ++ b') = drawn a a' ++ drawn b b' := by
  rw [drawn, ids_append, ids_append, List.zip_append h.ids]
  rfl

theorem append (h : Alike a a') (h' : Alike b b') : Alike (a ++ b) (a' ++ b') where
  ids := by rw [ids_append, ids_append, List.length_append, List.length_append, h.ids, h'.ids]
  statements := by
    rw [statements_append, statements_append, h.drawn_append]
    exact List.rel_append (h.statements.imp fun _ _ hs => hs.mono (List.subset_append_left ..))
      (h'.statements.imp fun _ _ hs => hs.mono (List.subset_append_right ..))

theorem nil : Alike [] [] := ⟨rfl, .nil⟩

end Alike

/-- Two runs asked alike to the end, or up to a request that storage answered differently. -/
inductive Compared {α : Type} (script script' : List Exchange) (x x' : Except ServiceError α) : Prop where
  | agreed (hreplies : replies script = replies script') (halike : Alike script script') (hx : x = x')
  | parted (common : List Exchange.Reply) (reply reply' : Exchange.Reply) (a b a' b' : List Exchange)
      (hscript : script = a ++ b) (hscript' : script' = a' ++ b') (hreplies : replies a = common ++ [reply])
      (hreplies' : replies a' = common ++ [reply']) (hne : reply ≠ reply') (halike : Alike a a')

end Script

/-- What is asked after the same requests were answered alike. -/
theorem Script.Compared.after {α : Type} {a a' b b' : List Exchange} {x x' : Except ServiceError α}
    (h : Compared b b' x x') (hreplies : replies a = replies a') (halike : Alike a a') :
    Compared (a ++ b) (a' ++ b') x x' := by
  cases h with
  | agreed hreplies₁ halike₁ hx =>
    exact .agreed (by rw [replies_append, replies_append, hreplies, hreplies₁]) (halike.append halike₁) hx
  | parted common reply reply' c d c' d' hb hb' hreplies₁ hreplies₁' hne halike₁ =>
    refine .parted (replies a ++ common) reply reply' (a ++ c) d (a' ++ c') d' ?_ ?_ ?_ ?_ hne
      (halike.append halike₁)
    · rw [hb, List.append_assoc]
    · rw [hb', List.append_assoc]
    · rw [replies_append, hreplies₁, List.append_assoc]
    · rw [replies_append, hreplies₁', hreplies, List.append_assoc]

namespace Service

open Script

variable {α β : Type}

/-- A single request, with what is made of its answer. -/
def requesting (r : Effect) (f : r.Answer → Except ServiceError α) : Service α :=
  ExceptT.mk do return f (← Task.perform r)

def asking (failure : DatabaseError → ServiceError) (s : Statement) : Service (List Record) :=
  requesting (.execute s) fun x => x.mapError failure

/-- A row that is added under a fresh id, its first parameter. -/
def inserting (failure : DatabaseError → ServiceError) (sql : String) (params : List Value) :
    Service (List Record) := do
  let id ← freshId
  asking failure ⟨sql, id :: params⟩

/-- The statements that a service asks for satisfy a property, and its database errors become what `failure`
says, whatever the answers are. -/
inductive Composed (P : Statement → Prop) (failure : DatabaseError → ServiceError) :
    {α : Type} → Service α → Prop where
  | done {α : Type} (x : Except ServiceError α) : Composed P failure (ExceptT.mk (Task.done x))
  | bind {α β : Type} {m : Service α} {f : α → Service β} (hm : Composed P failure m)
      (hf : ∀ a, Composed P failure (f a)) : Composed P failure (m >>= f)
  | request {α : Type} {r : Effect} {f : r.Answer → Except ServiceError α}
      (hstorage : ∀ x, (Exchange.reply? ⟨r, x⟩).isSome) (hstatement : ∀ s, r = .execute s → P s)
      (hfailure : ∀ x err, Exchange.failure? failure ⟨r, x⟩ = some err → f x = .error err) :
      Composed P failure (requesting r f)
  | insertion {sql : String} {params : List Value} (h : ∀ id, P ⟨sql, .text id :: params⟩) :
      Composed P failure (inserting failure sql params)

/-! ## Scripts of single requests -/

variable {script script' : List Exchange} {failure : DatabaseError → ServiceError}

theorem plays_requesting_iff {r : Effect} {f : r.Answer → Except ServiceError α} {x : Except ServiceError α} :
    (requesting r f).run.Plays script x ↔ ∃ y, script = [⟨r, y⟩] ∧ x = f y :=
  Task.plays_perform_iff

theorem plays_inserting_iff {sql : String} {params : List Value} {x : Except ServiceError (List Record)} :
    (inserting failure sql params).run.Plays script x ↔
      ∃ id y, script = [⟨.freshId, id⟩, ⟨.execute ⟨sql, .text id :: params⟩, y⟩] ∧ x = y.mapError failure := by
  rw [inserting, Task.plays_freshId_andThen_iff]
  constructor
  · rintro ⟨id, rest, rfl, hrest⟩
    obtain ⟨y, rfl, rfl⟩ := plays_requesting_iff.mp hrest
    exact ⟨id, y, rfl, rfl⟩
  · rintro ⟨id, y, rfl, rfl⟩
    exact ⟨id, _, rfl, plays_requesting_iff.mpr ⟨y, rfl, rfl⟩⟩

/-! ## What a service asks for -/

/-- Whatever is answered, only such effects are asked for. -/
def Asks (P : Effect → Prop) (m : Service α) : Prop :=
  ∀ script x, m.run.Plays script x → ∀ exchange ∈ script, P exchange.effect

section Asks

variable {P : Effect → Prop} {m : Service α}

theorem asks_done (x : Except ServiceError α) : Asks P (ExceptT.mk (Task.done x)) := by
  intro script y hplays
  obtain ⟨rfl, -⟩ := Task.plays_done_iff.mp hplays
  simp

theorem asks_pure (a : α) : Asks P (pure a : Service α) := asks_done (.ok a)

theorem asks_throw (err : ServiceError) : Asks P (throw err : Service α) := asks_done (.error err)

theorem Asks.bind {f : α → Service β} (hm : Asks P m) (hf : ∀ a, Asks P (f a)) : Asks P (m >>= f) := by
  intro script x hplays exchange hmem
  rcases Task.plays_andThen_iff.mp hplays with ⟨first, rest, a, rfl, hfirst, hrest⟩ | ⟨err, hfirst, -⟩
  · exact (List.mem_append.mp hmem).elim (hm first _ hfirst exchange) (hf a rest x hrest exchange)
  · exact hm script _ hfirst exchange hmem

theorem asks_requesting {r : Effect} (h : P r) (f : r.Answer → Except ServiceError α) : Asks P (requesting r f) := by
  intro script x hplays exchange hmem
  obtain ⟨y, rfl, -⟩ := plays_requesting_iff.mp hplays
  obtain rfl := List.mem_singleton.mp hmem
  exact h

theorem asks_orMissing (found : Option α) (missing : String) : Asks P (orMissing found missing) := by
  cases found with
  | none => exact asks_throw _
  | some a => exact asks_pure a

theorem asks_owned (h : ∀ s, P (.execute s)) (sql id user missing : String) :
    Asks P (owned sql id user missing) := by
  unfold owned
  split
  · exact Asks.bind (asks_requesting (h _) _) fun rows => asks_orMissing rows.head? missing
  · exact asks_throw _

end Asks

namespace Composed

variable {P : Statement → Prop} {m : Service α} {x x' : Except ServiceError α}

/-! ## Parts of services -/

theorem pure (a : α) : Composed P failure (pure a) := .done (.ok a)

theorem throw (err : ServiceError) : Composed P failure (throw err : Service α) := .done (.error err)

theorem asking {s : Statement} (h : P s) : Composed P failure (asking failure s) := by
  refine .request (fun _ => rfl) (fun s' hs => ?_) fun x err hx => ?_
  · cases hs
    exact h
  · cases x with
    | ok rows => cases hx
    | error err' =>
      cases hx
      rfl

theorem execute {sql : String} {params : List Value} (h : P ⟨sql, params⟩) :
    Composed P .database (execute sql params) := asking h

/-- The id is drawn for the next statement and for nothing else. -/
theorem insert_andThen {sql : String} {params : List Value} {f : List Record → Service α}
    (h : ∀ id, P ⟨sql, .text id :: params⟩) (hf : ∀ rows, Composed P failure (f rows)) :
    Composed P failure (do
      let id ← freshId
      let rows ← Service.asking failure ⟨sql, id :: params⟩
      f rows) := by
  have hbind := (Composed.insertion h).bind hf
  rwa [inserting, bind_assoc] at hbind

/-- An insertion whose database errors are caught and thrown again as others. -/
theorem insert_caught_andThen {sql : String} {params : List Value} {f : List Record → Service α}
    {handle : ServiceError → Service (List Record)}
    (hhandle : ∀ err, handle (.database err) = MonadExcept.throw (failure err))
    (h : ∀ id, P ⟨sql, .text id :: params⟩) (hf : ∀ rows, Composed P failure (f rows)) :
    Composed P failure (do
      let id ← freshId
      let rows ← tryCatch (Service.execute sql (id :: params)) handle
      f rows) := by
  have hcaught : ∀ id, tryCatch (Service.execute sql (id :: params)) handle
      = Service.asking failure ⟨sql, id :: params⟩ := by
    intro id
    refine congrArg (Task.ask (.execute ⟨sql, id :: params⟩)) (funext fun x => ?_)
    cases x with
    | ok rows => rfl
    | error err => exact hhandle err
  simp only [hcaught]
  exact insert_andThen h hf

theorem putBlob (path : String) (bytes : ByteArray) : Composed P failure (putBlob path bytes) := by
  refine .request (fun _ => rfl) (fun _ hs => nomatch hs) fun x err hx => ?_
  cases x with
  | ok uri => cases hx
  | error err' =>
    cases hx
    rfl

theorem getBlob (path : String) : Composed P failure (getBlob path) := by
  refine .request (fun _ => rfl) (fun _ hs => nomatch hs) fun x err hx => ?_
  cases x with
  | ok bytes => cases hx
  | error err' =>
    cases hx
    rfl

theorem locateBlob (uri : String) : Composed P failure (locateBlob uri) :=
  .request (f := Except.ok) (fun _ => rfl) (fun _ hs => nomatch hs) fun _ _ hx => nomatch hx

theorem whether {c : Prop} [Decidable c] {m rest : Service α}
    (hm : Composed P failure rest → Composed P failure m) (hrest : Composed P failure rest) :
    Composed P failure (if c then m else rest) := by
  split
  · exact hm hrest
  · exact hrest

theorem orMissing (found : Option α) (missing : String) : Composed P failure (orMissing found missing) := by
  cases found with
  | none => exact .throw _
  | some a => exact .pure a

theorem first (rows : List Record) (missing : String) : Composed P failure (first rows missing) :=
  orMissing rows.head? missing

theorem owned {sql id user : String} (h : P ⟨sql, [.text id, .text user]⟩) (missing : String) :
    Composed P .database (owned sql id user missing) := by
  unfold Service.owned
  split
  · exact (execute h).bind fun rows => first rows missing
  · exact .throw _

theorem compile_andThen {t : UpdateTemplate} {scope : List Value} {patch : Value} {f : Statement → Service α}
    (h : ∀ s, t.compile scope patch = .ok s → Composed P failure (f s)) :
    Composed P failure (compile t scope patch >>= f) := by
  unfold Service.compile
  cases hs : t.compile scope patch with
  | ok s => exact h s hs
  | error err => exact .throw (.update err)

theorem forM {f : β → Service PUnit} {l : List β} (h : ∀ b ∈ l, Composed P failure (f b)) :
    Composed P failure (l.forM f) := by
  induction l with
  | nil => exact .pure _
  | cons b rest ih =>
    obtain ⟨hb, hrest⟩ := List.forall_mem_cons.mp h
    exact hb.bind fun _ => ih hrest

/-! ## The statements -/

theorem statements_satisfy (h : Composed P failure m) (hplays : m.run.Plays script x) :
    ∀ s ∈ statements script, P s := by
  induction h generalizing script with
  | done x =>
    obtain ⟨rfl, -⟩ := Task.plays_done_iff.mp hplays
    simp [statements]
  | bind hm hf ihm ihf =>
    obtain ⟨first, rest, y, rfl, hfirst, hrest⟩ := Task.plays_run_bind_iff.mp hplays
    have hlater : ∀ s ∈ statements rest, P s := by
      cases y with
      | ok a => exact ihf a hrest
      | error err =>
        obtain ⟨rfl, -⟩ := Task.plays_done_iff.mp hrest
        simp [statements]
    intro s hs
    rw [statements_append] at hs
    exact (List.mem_append.mp hs).elim (ihm hfirst s) (hlater s)
  | @request α r f hstorage hstatement hfailure =>
    obtain ⟨y, rfl, -⟩ := plays_requesting_iff.mp hplays
    intro s hs
    cases r with
    | execute t =>
      obtain rfl := List.mem_singleton.mp hs
      exact hstatement s rfl
    | _ => cases hs
  | insertion hP =>
    obtain ⟨id, y, rfl, -⟩ := plays_inserting_iff.mp hplays
    intro s hs
    obtain rfl := List.mem_singleton.mp hs
    exact hP id

/-! ## Failures -/

/-- Nothing is asked after a request that failed, and its error is the result. -/
theorem stops (h : Composed P failure m) (hplays : m.run.Plays script x) {before after : List Exchange}
    {e : Exchange} {err : ServiceError} (hscript : script = before ++ e :: after)
    (he : e.failure? failure = some err) : after = [] ∧ x = .error err := by
  induction h generalizing script before after with
  | done x =>
    obtain ⟨rfl, -⟩ := Task.plays_done_iff.mp hplays
    simp at hscript
  | bind hm hf ihm ihf =>
    obtain ⟨first, rest, y, rfl, hfirst, hrest⟩ := Task.plays_run_bind_iff.mp hplays
    rcases List.append_eq_append_iff.mp hscript with ⟨between, rfl, hlater⟩ | ⟨between, hfirst', hlater⟩
    · cases y with
      | ok a => exact ihf a hrest hlater
      | error err' =>
        obtain ⟨rfl, -⟩ := Task.plays_done_iff.mp hrest
        simp at hlater
    · cases between with
      | nil =>
        rw [List.nil_append] at hlater
        cases y with
        | ok a => exact ihf a hrest (show rest = [] ++ e :: after from hlater.symm)
        | error err' =>
          obtain ⟨rfl, -⟩ := Task.plays_done_iff.mp hrest
          cases hlater
      | cons e' between =>
        obtain ⟨rfl, rfl⟩ := List.cons.inj hlater
        obtain ⟨rfl, rfl⟩ := ihm hfirst hfirst'
        obtain ⟨rfl, rfl⟩ := Task.plays_done_iff.mp hrest
        exact ⟨rfl, rfl⟩
  | request hstorage hstatement hfailure =>
    obtain ⟨y, rfl, rfl⟩ := plays_requesting_iff.mp hplays
    cases before with
    | nil =>
      obtain ⟨rfl, rfl⟩ := List.cons.inj hscript
      exact ⟨rfl, hfailure y err he⟩
    | cons e' before => simp at hscript
  | insertion hP =>
    obtain ⟨id, y, rfl, rfl⟩ := plays_inserting_iff.mp hplays
    cases before with
    | nil =>
      obtain ⟨rfl, -⟩ := List.cons.inj hscript
      cases he
    | cons e' before =>
      cases before with
      | nil =>
        obtain ⟨-, hrest⟩ := List.cons.inj hscript
        obtain ⟨rfl, rfl⟩ := List.cons.inj hrest
        cases y with
        | ok rows => cases he
        | error err' =>
          cases he
          exact ⟨rfl, rfl⟩
      | cons e'' before => simp at hscript

/-! ## Two runs -/

/-- Two runs of a single request, which is the first that storage can answer differently. -/
theorem compared_single {reply reply' : Exchange.Reply}
    (hreply : replies script = [reply]) (hreply' : replies script' = [reply']) (halike : Alike script script')
    (hx : reply = reply' → x = x') : Compared script script' x x' := by
  by_cases heq : reply = reply'
  · exact .agreed (by rw [hreply, hreply', heq]) halike (hx heq)
  · exact .parted [] reply reply' script [] script' [] (by simp) (by simp) hreply hreply' heq halike

theorem compare (h : Composed P failure m) (hplays : m.run.Plays script x) (hplays' : m.run.Plays script' x') :
    Compared script script' x x' := by
  induction h generalizing script script' with
  | done x =>
    obtain ⟨rfl, rfl⟩ := Task.plays_done_iff.mp hplays
    obtain ⟨rfl, rfl⟩ := Task.plays_done_iff.mp hplays'
    exact .agreed rfl .nil rfl
  | bind hm hf ihm ihf =>
    obtain ⟨first, rest, y, rfl, hfirst, hrest⟩ := Task.plays_run_bind_iff.mp hplays
    obtain ⟨first', rest', y', rfl, hfirst', hrest'⟩ := Task.plays_run_bind_iff.mp hplays'
    cases ihm hfirst hfirst' with
    | agreed hreplies halike hy =>
      have hlater : Compared rest rest' x x' := by
        subst hy
        cases y with
        | ok a => exact ihf a hrest hrest'
        | error err =>
          obtain ⟨rfl, rfl⟩ := Task.plays_done_iff.mp hrest
          obtain ⟨rfl, rfl⟩ := Task.plays_done_iff.mp hrest'
          exact .agreed rfl .nil rfl
      exact hlater.after hreplies halike
    | parted common reply reply' a b a' b' hscript hscript' hreplies hreplies' hne halike =>
      exact .parted common reply reply' a (b ++ rest) a' (b' ++ rest') (by rw [hscript, List.append_assoc])
        (by rw [hscript', List.append_assoc]) hreplies hreplies' hne halike
  | @request α r f hstorage hstatement hfailure =>
    obtain ⟨y, rfl, rfl⟩ := plays_requesting_iff.mp hplays
    obtain ⟨y', rfl, rfl⟩ := plays_requesting_iff.mp hplays'
    cases r with
    | execute s =>
      refine compared_single rfl rfl ⟨rfl, .cons (.refl s) .nil⟩ fun heq => ?_
      cases heq
      rfl
    | putBlob _ _ | getBlob _ | locateBlob _ =>
      refine compared_single rfl rfl ⟨rfl, .nil⟩ fun heq => ?_
      cases heq
      rfl
    | freshId | freshSalt | lookUp _ => cases hstorage y
  | insertion hP =>
    obtain ⟨id, y, rfl, rfl⟩ := plays_inserting_iff.mp hplays
    obtain ⟨id', y', rfl, rfl⟩ := plays_inserting_iff.mp hplays'
    refine compared_single rfl rfl ⟨rfl, .cons (.of_first _ _ ?_) .nil⟩ fun heq => ?_
    · exact List.mem_singleton_self _
    · cases heq
      rfl

/-- A run that is answered as another one was up to its last request asks for all that the other asked. -/
theorem alike_of_begins (h : Composed P failure m) (hplays : m.run.Plays script x)
    (hplays' : m.run.Plays script' x') {before : List Exchange} {e : Exchange} {reply : Exchange.Reply}
    (hscript : script = before ++ [e]) (he : e.reply? = some reply) (hbegins : replies before <+: replies script') :
    ∃ a' b', script' = a' ++ b' ∧ Alike script a' := by
  have hreplies : replies script = replies before ++ [reply] := by
    rw [hscript, replies_append]
    simp [replies, he]
  cases h.compare hplays hplays' with
  | agreed _ halike _ => exact ⟨script', [], by simp, halike⟩
  | parted common last last' a b a' b' ha ha' hlast hlast' hne halike =>
    have hsplit : replies before ++ [reply] = common ++ last :: replies b := by
      rw [← hreplies, ha, replies_append, hlast, List.append_assoc]
      rfl
    have hsplit' : replies script' = common ++ last' :: replies b' := by
      rw [ha', replies_append, hlast', List.append_assoc]
      rfl
    -- The two part no sooner than at the last request, since the answers before it are the same.
    have hb : replies b = [] := by
      rcases List.eq_nil_or_concat (replies b) with hnil | ⟨more, final, hmore⟩
      · exact hnil
      · exfalso
        rw [hmore, List.concat_eq_append, ← List.cons_append, ← List.append_assoc] at hsplit
        have hbefore : replies before = common ++ last :: more := (List.append_inj' hsplit rfl).1
        rw [hbefore, hsplit', List.prefix_append_right_inj] at hbegins
        exact hne (List.cons_prefix_cons.mp hbegins).1
    have hnil : b = [] := by
      rcases List.eq_nil_or_concat b with hnil | ⟨more, final, rfl⟩
      · exact hnil
      · rw [hscript, List.concat_eq_append, ← List.append_assoc] at ha
        obtain rfl := List.singleton_inj.mp (List.append_inj' ha rfl).2
        simp [replies, he] at hb
    rw [hnil, List.append_nil] at ha
    exact ⟨a', b', ha', ha ▸ halike⟩

end Composed
end Service
end JobTrail
