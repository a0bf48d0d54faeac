import CimConsole.Subscription.Action

/-!
Rules for actions on the subscriptions of a server. What an action ensures is stated for the
server that it starts from, the server and the value of a success, and the server of a failure,
whatever the user is asked and answers.
-/
namespace CimConsole.Action

variable {σ α β : Type}

/-- What comes of an action: its result, the server and the state of the user. -/
def outcome (a : Action (StateM σ) α) (s : Server) (user : σ) :
    (Except SubscriptionError α × Server) × σ :=
  (a.run.run s).run user

theorem outcome_bind (a : Action (StateM σ) α) (f : α → Action (StateM σ) β) (s : Server)
    (user : σ) :
    outcome (a >>= f) s user =
      match outcome a s user with
      | ((.ok x, t), user') => outcome (f x) t user'
      | ((.error e, t), user') => ((.error e, t), user') := by
  cases h : outcome a s user with
  | mk result user' =>
    obtain ⟨r, t⟩ := result
    have hrun : (a.run.run s).run user = ((r, t), user') := h
    change ((a >>= f).run.run s).run user = _
    rw [ExceptT.run_bind, StateT.run_bind, StateT.run_bind, hrun]
    cases r <;> rfl

theorem outcome_query (f : Server → Except ServerError α) (s : Server) (user : σ) :
    outcome (Action.query f : Action (StateM σ) α) s user =
      match f s with
      | .ok x => ((.ok x, s), user)
      | .error e => ((.error (.server e), s), user) := by
  rw [Action.query, outcome_bind]
  show outcome (match f s with | .ok x => Pure.pure x | .error e => MonadExcept.throw _) s user = _
  cases f s <;> rfl

theorem outcome_change (f : Server → Except ServerError (α × Server)) (s : Server) (user : σ) :
    outcome (Action.change f : Action (StateM σ) α) s user =
      match f s with
      | .ok (x, t) => ((.ok x, t), user)
      | .error e => ((.error (.server e), s), user) := by
  rw [Action.change, outcome_bind]
  show outcome (match f s with
    | .ok (x, t) => do
      MonadStateOf.set t
      Pure.pure x
    | .error e => MonadExcept.throw _) s user = _
  cases f s <;> rfl

theorem outcome_bind_ok {a : Action (StateM σ) α} {f : α → Action (StateM σ) β} {s t : Server}
    {user user' : σ} {x : α} (h : outcome a s user = ((.ok x, t), user')) :
    outcome (a >>= f) s user = outcome (f x) t user' := by
  rw [outcome_bind, h]

theorem outcome_bind_eq_ok {a : Action (StateM σ) α} {f : α → Action (StateM σ) β} {s u : Server}
    {user user' : σ} {y : β} :
    outcome (a >>= f) s user = ((.ok y, u), user') ↔
      ∃ x t middle, outcome a s user = ((.ok x, t), middle) ∧
        outcome (f x) t middle = ((.ok y, u), user') := by
  rw [outcome_bind]
  cases h : outcome a s user with
  | mk result middle =>
    obtain ⟨r, t⟩ := result
    cases r with
    | error e => simp
    | ok x =>
      constructor
      · exact fun hrest => ⟨x, t, middle, rfl, hrest⟩
      · rintro ⟨_, _, _, ⟨⟩, hrest⟩
        exact hrest

theorem outcome_query_eq_ok {f : Server → Except ServerError α} {s t : Server} {user user' : σ}
    {x : α} :
    outcome (Action.query f : Action (StateM σ) α) s user = ((.ok x, t), user') ↔
      f s = .ok x ∧ s = t ∧ user = user' := by
  rw [outcome_query]
  cases f s <;> simp [and_assoc]

theorem outcome_change_eq_ok {f : Server → Except ServerError (α × Server)} {s t : Server}
    {user user' : σ} {x : α} :
    outcome (Action.change f : Action (StateM σ) α) s user = ((.ok x, t), user') ↔
      f s = .ok (x, t) ∧ user = user' := by
  rw [outcome_change]
  cases f s <;> simp [Prod.ext_iff]

theorem outcome_query_ok {f : Server → Except ServerError α} {s : Server} {user : σ} {x : α}
    (h : f s = .ok x) :
    outcome (Action.query f : Action (StateM σ) α) s user = ((.ok x, s), user) := by
  rw [outcome_query, h]

/-- From a server with `P` the action ends at one with `Q`, or with `E` if it fails. -/
def Ensures (P : Server → Prop) (a : Action (StateM σ) α) (Q : α → Server → Prop)
    (E : Server → Prop) : Prop :=
  ∀ s user, P s →
    match outcome a s user with
    | ((.ok x, t), _) => Q x t
    | ((.error _, t), _) => E t

/-- The action keeps what holds of a server, whether it succeeds or fails. -/
def Preserves (I : Server → Prop) (a : Action (StateM σ) α) : Prop :=
  Ensures I a (fun _ => I) I

namespace Ensures

variable {P E : Server → Prop} {Q : α → Server → Prop}

theorem pure {x : α} (h : ∀ s, P s → Q x s) :
    Ensures P (Pure.pure x : Action (StateM σ) α) Q E :=
  fun s _ hs => h s hs

theorem throw {e : SubscriptionError} (h : ∀ s, P s → E s) :
    Ensures P (MonadExcept.throw e : Action (StateM σ) α) Q E :=
  fun s _ hs => h s hs

theorem bind {a : Action (StateM σ) α} {f : α → Action (StateM σ) β} {R : α → Server → Prop}
    {Q : β → Server → Prop} (ha : Ensures P a R E) (hf : ∀ x, Ensures (R x) (f x) Q E) :
    Ensures P (a >>= f) Q E := by
  intro s user hs
  have hfirst := ha s user hs
  rw [outcome_bind]
  cases h : outcome a s user with
  | mk result user' =>
    obtain ⟨r, t⟩ := result
    rw [h] at hfirst
    cases r with
    | ok x => exact hf x t user' hfirst
    | error e => exact hfirst

theorem mono {a : Action (StateM σ) α} {P' E' : Server → Prop} {Q' : α → Server → Prop}
    (h : Ensures P a Q E) (hP : ∀ s, P' s → P s) (hQ : ∀ x s, Q x s → Q' x s)
    (hE : ∀ s, E s → E' s) : Ensures P' a Q' E' := by
  intro s user hs
  have hend := h s user (hP s hs)
  cases ho : outcome a s user with
  | mk result user' =>
    obtain ⟨r, t⟩ := result
    rw [ho] at hend
    cases r with
    | ok x => exact hQ x t hend
    | error e => exact hE t hend

/-- What does not depend on the server can be taken out of the start. -/
theorem assume {a : Action (StateM σ) α} {φ : Prop} (h : φ → Ensures P a Q E) :
    Ensures (fun s => φ ∧ P s) a Q E :=
  fun s user hs => h hs.1 s user hs.2

theorem query {f : Server → Except ServerError α} (h : ∀ s x, P s → f s = .ok x → Q x s)
    (hE : ∀ s, P s → E s) : Ensures P (Action.query f : Action (StateM σ) α) Q E := by
  intro s user hs
  rw [outcome_query]
  cases hf : f s with
  | ok x => exact h s x hs hf
  | error e => exact hE s hs

theorem change {f : Server → Except ServerError (α × Server)}
    (h : ∀ s x t, P s → f s = .ok (x, t) → Q x t) (hE : ∀ s, P s → E s) :
    Ensures P (Action.change f : Action (StateM σ) α) Q E := by
  intro s user hs
  rw [outcome_change]
  cases hf : f s with
  | ok made => exact h s made.1 made.2 hs hf
  | error e => exact hE s hs

/-- What the server cannot but answer. -/
theorem query_total {f : Server → Except ServerError α} (h : ∀ s, P s → ∃ x, f s = .ok x ∧ Q x s) :
    Ensures P (Action.query f : Action (StateM σ) α) Q E := by
  intro s user hs
  obtain ⟨x, hx, hend⟩ := h s hs
  rw [outcome_query, hx]
  exact hend

theorem change_total {f : Server → Except ServerError (α × Server)}
    (h : ∀ s, P s → ∃ x t, f s = .ok (x, t) ∧ Q x t) :
    Ensures P (Action.change f : Action (StateM σ) α) Q E := by
  intro s user hs
  obtain ⟨x, t, hx, hend⟩ := h s hs
  rw [outcome_change, hx]
  exact hend

theorem choose {chooser : Chooser (StateM σ)} {prompt : String} {choices : List String}
    {Q : Option Nat → Server → Prop} (h : ∀ i s, P s → Q i s) :
    Ensures P (Action.choose chooser prompt choices) Q E :=
  fun s _ hs => h _ s hs

end Ensures

namespace Preserves

variable {I : Server → Prop}

theorem pure (x : α) : Preserves I (Pure.pure x : Action (StateM σ) α) :=
  Ensures.pure fun _ hs => hs

theorem throw (e : SubscriptionError) : Preserves I (MonadExcept.throw e : Action (StateM σ) α) :=
  Ensures.throw fun _ hs => hs

theorem query (f : Server → Except ServerError α) :
    Preserves I (Action.query f : Action (StateM σ) α) :=
  Ensures.query (fun _ _ hs _ => hs) fun _ hs => hs

theorem bind {a : Action (StateM σ) α} {f : α → Action (StateM σ) β} (ha : Preserves I a)
    (hf : ∀ x, Preserves I (f x)) : Preserves I (a >>= f) :=
  Ensures.bind ha hf

/-- What an action returns may be thrown away. -/
theorem unit {a : Action (StateM σ) α} (h : Preserves I a) : Preserves I (do let _ ← a) :=
  h.bind fun _ => pure _

end Preserves

end CimConsole.Action
