import CimConsole.Command.Run
import CimConsole.Proofs.Answer

/-!
Rules for commands in their contexts. What a command ensures is stated for the context that it
starts in, the context and the value of a success, and the context of a failure. A command that
only reads sees the same server behind it as before it: it may reach the server, write texts and
take answers, but it puts no other server in the place of the one that was reached.
-/
namespace CimConsole

namespace Context

/-- The server that a command gets to see: the one that was reached, or else the one to reach. -/
def server (c : Context) : Except Failure (Server × Target) :=
  match c.reached with
  | some r => .ok r
  | none => c.options.connect c.files

/-- The second context sees the server of the first, and has reached it if the first has. -/
structure Sees (c d : Context) : Prop where
  server : d.server = c.server
  reached : ∀ r, c.reached = some r → d.reached = some r

variable {c d e : Context}

theorem Sees.refl (c : Context) : c.Sees c := ⟨rfl, fun _ h => h⟩

theorem Sees.trans (h : c.Sees d) (h' : d.Sees e) : c.Sees e :=
  ⟨h'.server.trans h.server, fun r hr => h'.reached r (h.reached r hr)⟩

theorem server_of_reached {r : Server × Target} (h : c.reached = some r) : c.server = .ok r := by
  rw [server, h]

/-- Reaching the server to be seen changes nothing about it. -/
theorem sees_of_reached {r : Server × Target} (hserver : c.server = .ok r)
    (hreached : d.reached = some r) : c.Sees d := by
  refine ⟨(server_of_reached hreached).trans hserver.symm, fun r' hr' => ?_⟩
  obtain rfl := Except.ok.inj ((server_of_reached hr').symm.trans hserver)
  exact hreached

end Context

/-- Whatever is done to the context, it sees the same server. -/
def Quiet {α : Type} (a : StateM Context α) : Prop := ∀ c : Context, c.Sees (a.run c).2

namespace Quiet

variable {α β : Type}

theorem pure (x : α) : Quiet (Pure.pure x : StateM Context α) := fun c => .refl c

theorem bind {a : StateM Context α} {f : α → StateM Context β} (ha : Quiet a)
    (hf : ∀ x, Quiet (f x)) : Quiet (a >>= f) :=
  fun c => (ha c).trans (hf _ _)

/-- Asking takes a line and writes the question. -/
theorem ask (prompt : String) (choices : List String) : Quiet (Context.ask prompt choices) := by
  rintro ⟨options, files, terminal, warns, answers, reached, out, err, unanswered⟩
  cases answers with
  | nil => exact ⟨rfl, fun _ hr => hr⟩
  | cons line rest => exact ⟨rfl, fun _ hr => hr⟩

section Sessions

variable {console : Console}

theorem render (objectType : String) (results : List (String × Option Objects)) :
    Quiet ((Context.renderer console).render objectType results) :=
  fun _ => ⟨rfl, fun _ hr => hr⟩

theorem report (objectType target : String) (failures : List (String × ServerError)) :
    Quiet ((Context.renderer console).report objectType target failures) :=
  fun _ => ⟨rfl, fun _ hr => hr⟩

theorem recordFailure (s : Session Objects) (space : String) (e : OperationError) :
    Quiet (s.recordFailure (Context.renderer console) space e) := by
  unfold Session.recordFailure
  dsimp only
  split
  · exact pure _
  split
  · split
    · refine (report _ _ _).bind fun written => ?_
      split
      · exact pure _
      · exact pure _
    · exact pure _
  · exact pure _

theorem finish (s : Session Objects) : Quiet (s.finish (Context.renderer console)) := by
  unfold Session.finish
  split
  · refine (render _ _).bind fun written => ?_
    split
    · exact pure _
    split
    · exact pure _
    · refine (report _ _ _).bind fun written => ?_
      split
      · exact pure _
      · exact pure _
  · exact pure _

theorem runIn (op : String → Except OperationError Objects) (spaces : List String)
    (s : Session Objects) :
    Quiet (Session.runIn (Context.renderer console) (fun space => Pure.pure (op space)) spaces s) := by
  induction spaces generalizing s with
  | nil => exact (finish s).bind fun _ => pure _
  | cons space rest ih =>
    refine (pure _).bind fun answer => ?_
    cases answer
    case' ok payload => refine (pure _).bind ?_
    case' error e => refine (recordFailure _ _ _).bind ?_
    -- what was recorded decides whether the rest of the namespaces follow
    all_goals
      rintro ⟨result, s⟩
      cases result with
      | error e => exact pure _
      | ok _ => exact ih s

theorem run (op : String → Except OperationError Objects) (s : Session Objects) :
    Quiet (s.run (Context.renderer console) fun space => Pure.pure (op space)) := by
  unfold Session.run
  split
  · exact pure _
  · exact runIn op _ _

end Sessions

end Quiet

namespace Run

variable {α β : Type}

/-- What comes of a command: its result and the context behind it. -/
def outcome (a : Run α) (c : Context) : Except Failure α × Context := a.run.run c

theorem outcome_bind (a : Run α) (f : α → Run β) (c : Context) :
    outcome (a >>= f) c =
      match outcome a c with
      | (.ok x, d) => outcome (f x) d
      | (.error e, d) => (.error e, d) := by
  cases h : outcome a c with
  | mk result d =>
    have hrun : a.run.run c = (result, d) := h
    change ((a >>= f).run).run c = _
    rw [ExceptT.run_bind, StateT.run_bind, hrun]
    cases result <;> rfl

/-- The server is reached once, and is the one to be seen. -/
theorem outcome_server (c : Context) :
    outcome Run.server c =
      match c.server with
      | .ok r => (.ok r, { c with reached := some r })
      | .error e => (.error e, c) := by
  obtain ⟨options, files, terminal, warns, answers, reached, out, err, unanswered⟩ := c
  cases reached with
  | some r => rfl
  | none =>
    change outcome (do
      let r ← orFail (options.connect files)
      MonadStateOf.set (Context.mk options files terminal warns answers (some r) out err unanswered)
      Pure.pure r) _ = match options.connect files with
        | .ok r => (.ok r, Context.mk options files terminal warns answers (some r) out err unanswered)
        | .error e => (.error e, _)
    cases options.connect files <;> rfl

/-- From a context with `P` the command ends in one with `Q`, or with `E` if it fails. -/
structure Ensures (P : Context → Prop) (a : Run α) (Q : α → Context → Prop) (E : Context → Prop) :
    Prop where
  ends : ∀ c, P c →
    match outcome a c with
    | (.ok x, d) => Q x d
    | (.error _, d) => E d

namespace Ensures

variable {P E : Context → Prop} {Q : α → Context → Prop}

theorem bind {a : Run α} {f : α → Run β} {R : α → Context → Prop} {Q : β → Context → Prop}
    (ha : Ensures P a R E) (hf : ∀ x, Ensures (R x) (f x) Q E) : Ensures P (a >>= f) Q E := by
  refine ⟨fun c hc => ?_⟩
  have hfirst := ha.ends c hc
  rw [outcome_bind]
  cases h : outcome a c with
  | mk result d =>
    rw [h] at hfirst
    cases result with
    | ok x => exact (hf x).ends d hfirst
    | error e => exact hfirst

theorem mono {a : Run α} {P' E' : Context → Prop} {Q' : α → Context → Prop}
    (h : Ensures P a Q E) (hP : ∀ c, P' c → P c) (hQ : ∀ x c, Q x c → Q' x c)
    (hE : ∀ c, E c → E' c) : Ensures P' a Q' E' := by
  refine ⟨fun c hc => ?_⟩
  have hend := h.ends c (hP c hc)
  cases ho : outcome a c with
  | mk result d =>
    rw [ho] at hend
    cases result with
    | ok x => exact hQ x d hend
    | error e => exact hE d hend

/-- What does not depend on the context can be taken out of the start. -/
theorem assume {a : Run α} {φ : Prop} (h : φ → Ensures P a Q E) :
    Ensures (fun c => φ ∧ P c) a Q E :=
  ⟨fun c hc => (h hc.1).ends c hc.2⟩

theorem orFail {r : Except Failure α} (h : ∀ x c, r = .ok x → P c → Q x c) (hE : ∀ c, P c → E c) :
    Ensures P (Run.orFail r) Q E := by
  refine ⟨fun c hc => ?_⟩
  cases r with
  | ok x => exact h x c rfl hc
  | error e => exact hE c hc

theorem during {task : Task} {r : Except ServerError α} (h : ∀ x c, r = .ok x → P c → Q x c)
    (hE : ∀ c, P c → E c) : Ensures P (Run.during task r) Q E := by
  exact orFail (fun x c hx hc => h x c (mapError_eq_ok.1 hx) hc) hE

/-- Writing does not fail. -/
theorem write {s : String} {Q : Unit → Context → Prop} (h : ∀ c, P c → Q () (c.write s)) :
    Ensures P (Run.write s) Q E :=
  ⟨fun c hc => h c hc⟩

theorem complain {s : String} {Q : Unit → Context → Prop} (h : ∀ c, P c → Q () (c.complain s)) :
    Ensures P (Run.complain s) Q E :=
  ⟨fun c hc => h c hc⟩

theorem console {format : OutputFormat} {Q : Console → Context → Prop}
    (h : ∀ c, P c → Q (c.console format) c) : Ensures P (Run.console format) Q E :=
  ⟨fun c hc => h c hc⟩

theorem keep {s : Server} {Q : Unit → Context → Prop}
    (h : ∀ c, P c → Q () { c with reached := c.reached.map fun (_, target) => (s, target) }) :
    Ensures P (Run.keep s) Q E :=
  ⟨fun c hc => h c hc⟩

/-- Behind the first look the server is reached. -/
theorem server {c₀ : Context} (hE : ∀ c, c₀.Sees c → E c) :
    Ensures c₀.Sees Run.server (fun r c => c₀.server = .ok r ∧ c.reached = some r) E := by
  refine ⟨fun c hc => ?_⟩
  rw [outcome_server]
  cases hserver : c.server with
  | error e => exact hE c hc
  | ok r => exact ⟨hc.server.symm.trans hserver, rfl⟩

end Ensures

/-- The command sees the same server behind it as before it. -/
def Reads (a : Run α) : Prop := ∀ c : Context, c.Sees (outcome a c).2

namespace Reads

theorem ensures {a : Run α} (h : Reads a) (c₀ : Context) :
    Ensures c₀.Sees a (fun _ => c₀.Sees) c₀.Sees := by
  refine ⟨fun c hc => ?_⟩
  have hend := h c
  cases ho : outcome a c with
  | mk result d =>
    rw [ho] at hend
    cases result <;> exact hc.trans hend

/-- The server that was reached stays what it is. -/
theorem ensures_reached {a : Run α} (h : Reads a) {r : Server × Target} {E : Context → Prop}
    (hE : ∀ c, c.reached = some r → E c) :
    Ensures (fun c => c.reached = some r) a (fun _ c => c.reached = some r) E := by
  refine ⟨fun c hc => ?_⟩
  have hend := h c
  cases ho : outcome a c with
  | mk result d =>
    rw [ho] at hend
    cases result with
    | ok x => exact hend.reached r hc
    | error e => exact hE d (hend.reached r hc)

theorem of_ensures {a : Run α} (h : ∀ c₀, Ensures (· = c₀) a (fun _ => c₀.Sees) c₀.Sees) :
    Reads a := by
  intro c
  have hend := (h c).ends c rfl
  cases ho : outcome a c with
  | mk result d =>
    rw [ho] at hend
    cases result <;> exact hend

theorem pure (x : α) : Reads (Pure.pure x : Run α) := fun _ => .refl _

theorem throw (e : Failure) : Reads (MonadExcept.throw e : Run α) := fun _ => .refl _

theorem bind {a : Run α} {f : α → Run β} (ha : Reads a) (hf : ∀ x, Reads (f x)) :
    Reads (a >>= f) :=
  of_ensures fun c₀ => Ensures.bind (R := fun _ => c₀.Sees)
    ((ha.ensures c₀).mono (fun _ hc => hc ▸ .refl c₀) (fun _ _ hc => hc) fun _ hc => hc)
    fun x => (hf x).ensures c₀

theorem orFail (r : Except Failure α) : Reads (Run.orFail r) := by
  intro c
  cases r <;> exact .refl c

theorem during (task : Task) (r : Except ServerError α) : Reads (Run.during task r) := orFail _

theorem write (s : String) : Reads (Run.write s) := fun _ => ⟨rfl, fun _ hr => hr⟩

theorem complain (s : String) : Reads (Run.complain s) := fun _ => ⟨rfl, fun _ hr => hr⟩

theorem console (format : OutputFormat) : Reads (Run.console format) := fun _ => .refl _

theorem get : Reads (MonadState.get : Run Context) := fun _ => .refl _

theorem lift {a : StateM Context α} (h : Quiet a) : Reads (ExceptT.lift a : Run α) := h

theorem ask (prompt : String) (choices : List String) : Reads (Run.ask prompt choices) :=
  lift (Quiet.ask prompt choices)

theorem server : Reads Run.server := by
  intro c
  rw [outcome_server]
  cases hserver : c.server with
  | error e => exact .refl c
  | ok r => exact Context.sees_of_reached hserver rfl

theorem chooseSpaces (s : Server) (requested : List String) (all : Bool) :
    Reads (Run.chooseSpaces s requested all) := by
  refine (during _ _).bind fun chosen => ?_
  dsimp only
  split
  · refine get.bind fun c => ?_
    split
    · exact (complain _).bind fun _ => pure _
    · exact pure _
  · exact pure _

theorem inNamespaces (console : Console) (objectType target : String) (spaces : List String)
    (op : String → Except OperationError Objects) :
    Reads (Run.inNamespaces console objectType target spaces op) := by
  refine (lift (Quiet.run op _)).bind fun ended => ?_
  split
  · exact pure _
  · exact throw _

/-- Running in chosen namespaces. -/
theorem inChosen (s : Server) (requested : List String) (all : Bool) (format : OutputFormat)
    (objectType target : String) (op : String → Except OperationError Objects) :
    Reads (do
      let spaces ← Run.chooseSpaces s requested all
      Run.inNamespaces (← Run.console format) objectType target spaces op) :=
  (chooseSpaces s requested all).bind fun _ => (console format).bind fun _ =>
    inNamespaces _ _ _ _ _

end Reads

end Run

end CimConsole
