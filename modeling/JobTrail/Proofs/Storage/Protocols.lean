import JobTrail.Proofs.Storage.Faults

/-!
# Protocols

Tasks that share one storage keep to a protocol: something holds of storage and of a ledger, which is not
stored anywhere, whenever an effect has been answered. A task may rely on no more than this between its
effects, and on what the protocol says about later stages; each of its own effects has to uphold both,
whatever storage answers, and it has to give the guarantee that is asked of this task.
-/

namespace JobTrail

open Sql Storage

structure Stage (γ : Type) where
  storage : Storage
  ledger : γ

structure Protocol (γ : Type) where
  Holds : Stage γ → Prop
  Later : Stage γ → Stage γ → Prop
  refl : ∀ g, Later g g
  trans : ∀ {g g₁ g₂}, Later g g₁ → Later g₁ g₂ → Later g g₂

namespace Protocol

variable {γ α β : Type} {p : Protocol γ} {e : Engine} {G : Stage γ → Stage γ → Prop} {g g' : Stage γ}

/-- One effect from a stage on, after which there is a ledger that goes with it. -/
def Upholds (p : Protocol γ) (G : Stage γ → Stage γ → Prop) (g : Stage γ) (s : Storage)
    (Q : Stage γ → Prop) : Prop :=
  ∃ ledger, p.Later g ⟨s, ledger⟩ ∧ p.Holds ⟨s, ledger⟩ ∧ G g ⟨s, ledger⟩ ∧ Q ⟨s, ledger⟩

/-- A task keeps to the protocol and ends with what satisfies `Q`. -/
def Keeps (p : Protocol γ) (e : Engine) (G : Stage γ → Stage γ → Prop) (Q : α → Stage γ → Prop) :
    Task α → Stage γ → Prop
  | .done a, g => Q a g
  | .ask r next, g => ∀ g₁ x s, p.Later g g₁ → p.Holds g₁ → Responds e g₁.storage r x s →
      p.Upholds G g₁ s (Keeps p e G Q (next x))

theorem Keeps.bind {P : α → Stage γ → Prop} {Q : β → Stage γ → Prop} {t : Task α} {f : α → Task β}
    (ht : p.Keeps e G P t g) (hf : ∀ a g₁, p.Later g g₁ → P a g₁ → p.Keeps e G Q (f a) g₁) :
    p.Keeps e G Q (t.bind f) g := by
  induction t generalizing g with
  | done a => exact hf a g (p.refl g) ht
  | ask r next ih =>
    intro g₁ x s hlater hholds hx
    obtain ⟨ledger, hlater', hholds', hG, hnext⟩ := ht g₁ x s hlater hholds hx
    refine ⟨ledger, hlater', hholds', hG, ih x hnext ?_⟩
    intro a g₂ hlater₂ ha
    exact hf a g₂ (p.trans (p.trans hlater hlater') hlater₂) ha

theorem Keeps.later {Q : α → Stage γ → Prop} {t : Task α} (hQ : ∀ a, Q a g → Q a g')
    (ht : p.Keeps e G Q t g) (h : p.Later g g') : p.Keeps e G Q t g' := by
  cases t with
  | done a => exact hQ a ht
  | ask r next =>
    intro g₁ x s hlater hholds hx
    exact ht g₁ x s (p.trans h hlater) hholds hx

/-! ## Services -/

/-- A service keeps to the protocol; it may end with any error, and otherwise with what satisfies `Q`. -/
def Performs (p : Protocol γ) (e : Engine) (G : Stage γ → Stage γ → Prop) (Q : α → Stage γ → Prop)
    (m : Service α) (g : Stage γ) : Prop :=
  p.Keeps e G (fun x g => ∀ a, x = .ok a → Q a g) m.run g

variable {P Q : α → Stage γ → Prop} {m : Service α}

theorem performs_pure {a : α} (h : Q a g) : p.Performs e G Q (pure a) g := by
  rintro _ ⟨⟩
  exact h

theorem performs_throw (err : ServiceError) : p.Performs e G Q (throw err) g := by
  rintro _ ⟨⟩

theorem Performs.bind {R : β → Stage γ → Prop} {f : α → Service β} (hm : p.Performs e G P m g)
    (hf : ∀ a g₁, p.Later g g₁ → P a g₁ → p.Performs e G R (f a) g₁) : p.Performs e G R (m >>= f) g := by
  apply Keeps.bind hm
  intro x g₁ hlater hx
  cases x with
  | ok a => exact hf a g₁ hlater (hx a rfl)
  | error err => rintro _ ⟨⟩

theorem Performs.imp (hm : p.Performs e G P m g) (h : ∀ a g₁, P a g₁ → Q a g₁) : p.Performs e G Q m g := by
  have hbind := hm.bind fun a g₁ _ ha => performs_pure (h a g₁ ha)
  rwa [bind_pure] at hbind

/-- Something may be done first. -/
theorem performs_whether {c : Prop} [Decidable c] {first rest : Service α}
    (hfirst : (∀ g₁, p.Later g g₁ → p.Performs e G Q rest g₁) → p.Performs e G Q first g)
    (hrest : ∀ g₁, p.Later g g₁ → p.Performs e G Q rest g₁) :
    p.Performs e G Q (if c then first else rest) g := by
  split
  · exact hfirst hrest
  · exact hrest g (p.refl g)

theorem performs_orMissing (found : Option α) (missing : String) :
    p.Performs e G (fun a _ => found = some a) (Service.orMissing found missing) g := by
  cases found with
  | none => exact performs_throw _
  | some a => exact performs_pure rfl

theorem performs_first (rows : List Record) (missing : String) :
    p.Performs e G (fun row _ => row ∈ rows) (Service.first rows missing) g := by
  cases rows with
  | nil => exact performs_throw _
  | cons row rest => exact performs_pure List.mem_cons_self

/-- An effect of a service, whose answer is turned into a result. -/
theorem performs_effect {r : Effect} {f : r.Answer → Except ServiceError α}
    (h : ∀ g₁ x s, p.Later g g₁ → p.Holds g₁ → Responds e g₁.storage r x s →
      p.Upholds G g₁ s fun g₂ => ∀ a, f x = .ok a → Q a g₂) :
    p.Performs e G Q (ExceptT.mk ((Task.perform r).bind fun x => .done (f x))) g := h

/-- A statement is run as its query is, or nothing is changed. -/
theorem performs_execute {sql : String} {q : Query} {params : List Value} {Q : List Record → Stage γ → Prop}
    (hread : read? sql = some q) (hsame : ∀ g₁, p.Later g g₁ → p.Holds g₁ → G g₁ g₁)
    (h : ∀ g₁ rows db', p.Later g g₁ → p.Holds g₁ → q.run e params g₁.storage.db = .ok (rows, db') →
      p.Upholds G g₁ { g₁.storage with db := db' } (Q rows)) :
    p.Performs e G Q (Service.execute sql params) g := by
  apply performs_effect
  intro g₁ x s hlater hholds hx
  rcases hx.execute hread with ⟨rows, db', rfl, hrun, rfl⟩ | ⟨err, rfl, rfl⟩
  · obtain ⟨ledger, hlater', hholds', hG, hrows⟩ := h g₁ rows db' hlater hholds hrun
    refine ⟨ledger, hlater', hholds', hG, ?_⟩
    rintro _ ⟨⟩
    exact hrows
  · refine ⟨g₁.ledger, p.refl g₁, hholds, hsame g₁ hlater hholds, ?_⟩
    rintro _ ⟨⟩

theorem performs_owned {sql id user : String}
    (h : p.Performs e G (fun _ _ => True) (Service.execute sql [.text id, .text user]) g) (missing : String) :
    p.Performs e G (fun _ _ => True) (Service.owned sql id user missing) g := by
  unfold Service.owned
  split
  · apply h.bind
    intro rows g₁ _ _
    exact (performs_first rows missing).imp fun _ _ _ => trivial
  · exact performs_throw _

/-- An effect that only looks at storage. -/
theorem performs_look {r : Effect} {f : r.Answer → Except ServiceError α}
    (hlooks : ∀ s x s', Responds e s r x s' → s' = s) (hsame : ∀ g₁, p.Later g g₁ → p.Holds g₁ → G g₁ g₁) :
    p.Performs e G (fun _ _ => True) (ExceptT.mk ((Task.perform r).bind fun x => .done (f x))) g := by
  apply performs_effect
  intro g₁ x s hlater hholds hx
  rw [hlooks _ _ _ hx]
  exact ⟨g₁.ledger, p.refl g₁, hholds, hsame g₁ hlater hholds, fun _ _ => trivial⟩

theorem performs_getBlob (hsame : ∀ g₁, p.Later g g₁ → p.Holds g₁ → G g₁ g₁) (path : String) :
    p.Performs e G (fun _ _ => True) (Service.getBlob path) g := by
  refine performs_look (r := .getBlob path) ?_ hsame
  rintro s x s' (hserves | ⟨hfails, -⟩)
  · cases hserves
    rfl
  · cases hfails
    rfl

theorem performs_locateBlob (hsame : ∀ g₁, p.Later g g₁ → p.Holds g₁ → G g₁ g₁) (uri : String) :
    p.Performs e G (fun _ _ => True) (Service.locateBlob uri) g := by
  refine performs_look (r := .locateBlob uri) ?_ hsame
  rintro s x s' (hserves | ⟨hfails, -⟩)
  · cases hserves
    rfl
  · cases hfails

end Protocol
end JobTrail
