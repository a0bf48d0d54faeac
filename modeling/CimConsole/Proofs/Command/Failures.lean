import CimConsole.Command
import CimConsole.Proofs.Command.Rules
import CimConsole.Proofs.Server.Reachable
import CimConsole.Proofs.Subscription.Atomic
import CimConsole.Proofs.Subscription.Closed

/-!
Commands that fail. Most commands only read. Creating and deleting an instance keeps the server
that comes out as the last thing that can go wrong, and an operation of a manager that fails has
changed nothing. So whatever command fails sees the server behind it that it saw before it, and the
server behind a command is one that calls can lead to.
-/
namespace CimConsole

open Run (Reads Ensures)

section Reading

theorem ClassCommand.reads (command : ClassCommand) : Reads command.run := by
  cases command with
  | enumerate start deep retrieval listing namespaces filters =>
    exact Reads.server.bind fun _ => Reads.inChosen _ _ _ _ _ _ _
  | get name retrieval namespaces =>
    exact Reads.server.bind fun _ => Reads.inChosen _ _ _ _ _ _ _
  | find pattern namespaces =>
    exact (Reads.orFail _).bind fun _ => Reads.server.bind fun _ => Reads.inChosen _ _ _ _ _ _ _
  | references name filter listing namespaces =>
    exact Reads.server.bind fun _ => Reads.inChosen _ _ _ _ _ _ _
  | associators name filter listing namespaces =>
    exact Reads.server.bind fun _ => Reads.inChosen _ _ _ _ _ _ _
  | tree root space =>
    exact Reads.server.bind fun _ => (Reads.orFail _).bind fun _ => Reads.write _

theorem QualifierCommand.reads (command : QualifierCommand) : Reads command.run := by
  cases command with
  | enumerate summary namespaces =>
    exact Reads.server.bind fun _ => Reads.inChosen _ _ _ _ _ _ _
  | get name namespaces =>
    exact Reads.server.bind fun _ => Reads.inChosen _ _ _ _ _ _ _

theorem NamespaceCommand.reads (command : NamespaceCommand) : Reads command.run := by
  cases command with
  | list summary =>
    exact Reads.server.bind fun _ => (Reads.during _ _).bind fun _ =>
      (Reads.console _).bind fun _ => Reads.write _
  | interop =>
    exact Reads.server.bind fun _ => (Reads.during _ _).bind fun _ =>
      (Reads.console _).bind fun _ => Reads.write _

theorem InstanceName.reads_resolve (name : InstanceName) (s : Server) (space : String) :
    Reads (name.resolve s space) := by
  unfold InstanceName.resolve
  split
  · exact Reads.orFail _
  · refine (Reads.during _ _).bind fun paths => ?_
    split
    · exact Reads.throw _
    · refine (Reads.ask _ _).bind fun choice => ?_
      split
      · exact Reads.pure _
      · exact Reads.throw _

/-- Whether a command about instances creates or deletes one. -/
def InstanceCommand.changes : InstanceCommand → Bool
  | .create .. | .delete .. => true
  | _ => false

theorem InstanceCommand.reads (command : InstanceCommand) (h : command.changes = false) :
    Reads command.run := by
  cases command with
  | create className assignments space => cases h
  | delete name space => cases h
  | enumerate className properties listing namespaces =>
    exact Reads.server.bind fun _ => Reads.inChosen _ _ _ _ _ _ _
  | get name properties namespaces =>
    exact Reads.server.bind fun _ => (Reads.chooseSpaces _ _ _).bind fun _ =>
      (name.reads_resolve _ _).bind fun _ => (Reads.console _).bind fun _ =>
        Reads.inNamespaces _ _ _ _ _
  | references name filter listing namespaces =>
    exact Reads.server.bind fun _ => (Reads.chooseSpaces _ _ _).bind fun _ =>
      (name.reads_resolve _ _).bind fun _ => (Reads.console _).bind fun _ =>
        Reads.inNamespaces _ _ _ _ _
  | associators name filter listing namespaces =>
    exact Reads.server.bind fun _ => (Reads.chooseSpaces _ _ _).bind fun _ =>
      (name.reads_resolve _ _).bind fun _ => (Reads.console _).bind fun _ =>
        Reads.inNamespaces _ _ _ _ _
  | count pattern namespaces =>
    exact (Reads.orFail _).bind fun _ => Reads.server.bind fun _ => Reads.inChosen _ _ _ _ _ _ _

end Reading

namespace Context

/-- The server that was reached, if one was, is one that calls can lead to. -/
def Loaded (c : Context) : Prop := ∀ r, c.reached = some r → r.1.Reachable

variable {c d : Context}

theorem Loaded.reachable (h : c.Loaded) {r : Server × Target} (hr : c.server = .ok r) :
    r.1.Reachable := by
  cases hreached : c.reached with
  | some r' =>
    obtain rfl := Except.ok.inj ((server_of_reached hreached).symm.trans hr)
    exact h _ hreached
  | none =>
    rw [server, hreached] at hr
    exact Options.reachable_of_connect hr

/-- The interop namespace of the server to be seen is orderly, if there are a server and one. -/
def Orderly (c : Context) : Prop :=
  ∀ s target interop, c.server = .ok (s, target) → s.interop = .ok interop →
    s.At interop Namespace.Orderly

theorem Loaded.write (h : c.Loaded) (s : String) : (c.write s).Loaded := fun r hr => h r hr

theorem Loaded.complain (h : c.Loaded) (s : String) : (c.complain s).Loaded := fun r hr => h r hr

theorem Sees.loaded (h : c.Sees d) (hc : c.Loaded) : d.Loaded :=
  fun _ hr => hc.reachable (h.server ▸ server_of_reached hr)

end Context

/-- A command leads to servers that calls lead to. If it fails in a context with `φ` it sees the
server behind it that it saw before it. -/
def Run.Careful (φ : Context → Prop) (a : Run Unit) : Prop :=
  ∀ c₀ : Context, c₀.Loaded →
    Ensures c₀.Sees a (fun _ => Context.Loaded) fun d => d.Loaded ∧ (φ c₀ → c₀.Sees d)

theorem Run.Reads.careful {a : Run Unit} (h : Reads a) (φ : Context → Prop) : a.Careful φ :=
  fun c₀ hc₀ => (h.ensures c₀).mono (fun _ hc => hc) (fun _ _ hc => hc.loaded hc₀)
    fun _ hc => ⟨hc.loaded hc₀, fun _ => hc⟩

theorem Run.Ensures.keep_reachable {t : Server} (ht : t.Reachable) {r : Server × Target}
    {E : Context → Prop} :
    Ensures (fun c => c.reached = some r) (Run.keep t) (fun _ => Context.Loaded) E := by
  refine Ensures.keep fun c hc r' hr' => ?_
  obtain rfl : (t, r.2) = r' := by simpa [hc] using hr'
  exact ht

section Instances

variable {φ : Context → Prop} {space : Option String}

theorem InstanceCommand.careful_create (className : String) (assignments : List String) :
    Run.Careful φ (InstanceCommand.create className assignments space).run := by
  intro c₀ hc₀
  have hfail : ∀ c : Context, c₀.Sees c → c.Loaded ∧ (φ c₀ → c₀.Sees c) :=
    fun c hc => ⟨hc.loaded hc₀, fun _ => hc⟩
  refine Ensures.bind (Ensures.server hfail) fun ⟨s, target⟩ => Ensures.assume fun hserver => ?_
  have hfail' : ∀ c : Context, c.reached = some (s, target) → c.Loaded ∧ (φ c₀ → c₀.Sees c) :=
    fun c hc => hfail c (Context.sees_of_reached hserver hc)
  refine Ensures.bind ((Reads.during _ _).ensures_reached hfail') fun cls => ?_
  refine Ensures.bind ((Reads.orFail _).ensures_reached hfail') fun x => ?_
  refine Ensures.bind (Ensures.during (fun made c hmade hc => And.intro hmade hc) hfail')
    fun ⟨path, t⟩ => Ensures.assume fun hmade => ?_
  refine Ensures.bind (Ensures.keep_reachable ((hc₀.reachable hserver).create hmade)) fun _ => ?_
  exact Ensures.bind (R := fun _ => Context.Loaded) (Ensures.console fun _ hc => hc) fun _ =>
    Ensures.write fun _ hc => hc.write _

theorem InstanceCommand.careful_delete (name : InstanceName) :
    Run.Careful φ (InstanceCommand.delete name space).run := by
  intro c₀ hc₀
  have hfail : ∀ c : Context, c₀.Sees c → c.Loaded ∧ (φ c₀ → c₀.Sees c) :=
    fun c hc => ⟨hc.loaded hc₀, fun _ => hc⟩
  refine Ensures.bind (Ensures.server hfail) fun ⟨s, target⟩ => Ensures.assume fun hserver => ?_
  have hfail' : ∀ c : Context, c.reached = some (s, target) → c.Loaded ∧ (φ c₀ → c₀.Sees c) :=
    fun c hc => hfail c (Context.sees_of_reached hserver hc)
  refine Ensures.bind ((name.reads_resolve _ _).ensures_reached hfail') fun path => ?_
  refine Ensures.bind (Ensures.during (fun t c ht hc => And.intro ht hc) hfail')
    fun t => Ensures.assume fun ht => ?_
  refine Ensures.bind (Ensures.keep_reachable ((hc₀.reachable hserver).delete ht)) fun _ => ?_
  exact Ensures.bind (R := fun _ => Context.Loaded) (Ensures.console fun _ hc => hc) fun _ =>
    Ensures.write fun _ hc => hc.write _

end Instances

namespace SubscriptionCommand

open Manager
open CimConsole.Action (KeepsUser Preserves Closed Atomic)

variable {α : Type} {c₀ : Context} {mgr : Manager}

/-- An action is run on the server to be seen, and what becomes of the server is kept. -/
theorem ensures_act {a : Action (StateM Context) α} {Q : α → Context → Prop} {E : Context → Prop}
    (hE : ∀ c, c₀.Sees c → E c)
    (hact : ∀ s target c, c₀.server = .ok (s, target) → c.reached = some (s, target) →
      match Action.outcome a s c with
      | ((.ok x, t), d) => Q x { d with reached := d.reached.map fun (_, target) => (t, target) }
      | ((.error _, t), d) =>
        E { d with reached := d.reached.map fun (_, target) => (t, target) }) :
    Ensures c₀.Sees (act a) Q E := by
  refine Ensures.bind (Ensures.server hE) fun ⟨s, target⟩ => Ensures.assume fun hserver => ⟨?_⟩
  intro c hc
  have hend := hact s target c hserver hc
  cases ho : Action.outcome a s c with
  | mk result d =>
    obtain ⟨r, t⟩ := result
    have hrun : Run.outcome (ExceptT.lift (a.run.run s) : Run _) c = (.ok (r, t), d) :=
      congrArg (fun p => (Except.ok p.1, p.2)) ho
    rw [ho] at hend
    rw [Run.outcome_bind, hrun]
    cases r with
    | ok x => exact hend
    | error e => exact hend

/-- Asking a server only reads. -/
theorem reads_ask (f : Server → Except ServerError α) : Reads (ask f) := by
  refine Reads.of_ensures fun c => ?_
  refine (ensures_act (fun _ hd => hd) fun s target d hserver hd => ?_).mono
    (fun _ hd => hd ▸ .refl c) (fun _ _ hd => hd) fun _ hd => hd
  have hsame : c.Sees { d with reached := d.reached.map fun (_, target) => (s, target) } :=
    Context.sees_of_reached hserver (by rw [hd]; rfl)
  rw [Action.outcome_query]
  cases f s with
  | ok x => exact hsame
  | error e => exact hsame

/-- What an operation of a manager does besides succeeding or failing. -/
structure Managed (a : Action (StateM Context) α) : Prop where
  user : ∀ r, KeepsUser (fun c : Context => c.reached = some r) a
  server : Preserves Server.Reachable a

theorem closed_managed : Closed Context.ask fun _ a => Managed a := by
  have huser : ∀ r, Closed Context.ask fun _ a =>
      KeepsUser (fun c : Context => c.reached = some r) a := fun r =>
    KeepsUser.closed fun prompt choices c hc => (Quiet.ask prompt choices c).reached r hc
  have hserver := Preserves.closed Server.Reachable Context.ask
  constructor
  case pure => exact fun x => ⟨fun r => (huser r).pure x, hserver.pure x⟩
  case throw => exact fun e => ⟨fun r => (huser r).throw e, hserver.throw e⟩
  case query => exact fun f => ⟨fun r => (huser r).query f, hserver.query f⟩
  case choose =>
    exact fun prompt choices =>
      ⟨fun r => (huser r).choose prompt choices, hserver.choose prompt choices⟩
  case bind =>
    exact fun ha hf => ⟨fun r => (huser r).bind (ha.user r) fun x => (hf x).user r,
      hserver.bind ha.server fun x => (hf x).server⟩

theorem managed_create (x : Instance) : Managed (mgr.create x) where
  user _ := (KeepsUser.change _).bind fun _ => KeepsUser.query _
  server := Preserves.bind
    (Action.Ensures.change (fun _ _ _ hs hc => hs.create hc) fun _ hs => hs)
    fun _ => Preserves.query _

theorem managed_delete (p : ObjectPath) : Managed (mgr.delete p) where
  user _ := KeepsUser.change _
  server := by
    refine Action.Ensures.change (fun s u t hs hd => ?_) fun _ hs => hs
    obtain ⟨t', hdelete, hsame⟩ := map_eq_ok.1 hd
    obtain ⟨-, rfl⟩ := Prod.mk.inj hsame
    exact hs.delete hdelete

variable {φ : Prop}

/-- If no failure of an operation leaves a trace, none of the command does. -/
theorem careful_act {a : Action (StateM Context) α} (ha : Managed a) (hc₀ : c₀.Loaded)
    (hatomic : φ → ∀ s target, c₀.server = .ok (s, target) → Atomic s a) :
    Ensures c₀.Sees (act a) (fun _ => Context.Loaded)
      fun d => d.Loaded ∧ (φ → c₀.Sees d) := by
  refine ensures_act (fun c hc => ⟨hc.loaded hc₀, fun _ => hc⟩) fun s target c hserver hc => ?_
  have huser := ha.user (s, target) s c hc
  have hreachable := ha.server s c (hc₀.reachable hserver)
  have hsame := fun h : φ => hatomic h s target hserver s c rfl
  cases ho : Action.outcome a s c with
  | mk result d =>
    obtain ⟨r, t⟩ := result
    rw [ho] at huser hreachable hsame
    have hkept : d.reached.map (fun (_, target) => (t, target)) = some (t, target) := by
      rw [huser]
      rfl
    have hloaded : t.Reachable → Context.Loaded
        { d with reached := d.reached.map fun (_, target) => (t, target) } := by
      intro ht r hr
      obtain rfl := Option.some.inj (hkept.symm.trans hr)
      exact ht
    cases r with
    | ok x => exact hloaded hreachable
    | error e =>
      refine ⟨hloaded hreachable, fun h => ?_⟩
      obtain rfl : t = s := hsame h
      exact Context.sees_of_reached hserver hkept

theorem reads_counts : Reads (counts mgr) :=
  (reads_ask _).bind fun _ => (reads_ask _).bind fun _ => (reads_ask _).bind fun _ => Reads.pure _

theorem careful_runFor (hc₀ : c₀.Loaded) (space : String) (console : Console)
    (htidy : φ → ∀ s target, c₀.server = .ok (s, target) → s.Tidy mgr.interop)
    (command : SubscriptionCommand) :
    Ensures c₀.Sees (runFor mgr space console command) (fun _ => Context.Loaded)
      fun d => d.Loaded ∧ (φ → c₀.Sees d) := by
  have hreads : ∀ {a : Run Unit}, Reads a → Ensures c₀.Sees a (fun _ => Context.Loaded)
      fun d => d.Loaded ∧ (φ → c₀.Sees d) := fun h => h.careful (fun _ => φ) c₀ hc₀
  cases command with
  | addDestination identity url owned =>
    refine Ensures.bind (careful_act (closed_addDestination closed_managed managed_create) hc₀
      fun _ s _ _ => atomic_addDestination) fun x => Ensures.write fun _ hc => hc.write _
  | addFilter identity query language sources owned =>
    refine Ensures.bind (careful_act (closed_addFilter closed_managed managed_create) hc₀
      fun _ s _ _ => atomic_addFilter) fun x => Ensures.write fun _ hc => hc.write _
  | addSubscription destination filter owned select =>
    refine Ensures.bind (careful_act (closed_addSubscription closed_managed fun _ _ =>
      managed_create _) hc₀ fun h s target hs => atomic_addSubscription (htidy h s target hs))
        fun x => ?_
    dsimp only
    split
    · exact Ensures.bind (R := fun _ => Context.Loaded) (Ensures.complain fun _ hc => hc.complain _)
        fun _ => Ensures.write fun _ hc => hc.write _
    · exact Ensures.write fun _ hc => hc.write _
  | list l => exact hreads (reads_counts.bind fun _ => Reads.write _)
  | listEndpoints kind l => exact hreads ((reads_ask _).bind fun _ => Reads.write _)
  | listSubscriptions l => exact hreads ((reads_ask _).bind fun _ => Reads.write _)
  | removeEndpoint kind identity select =>
    refine Ensures.bind (careful_act (closed_removeEndpoint closed_managed managed_delete) hc₀
      fun _ s _ _ => atomic_removeEndpoint) fun x => Ensures.write fun _ hc => hc.write _
  | removeSubscription destination filter associated select =>
    refine Ensures.bind (careful_act (closed_removeSubscription closed_managed managed_delete) hc₀
      fun h s target hs => atomic_removeSubscription (htidy h s target hs)) fun x =>
        Ensures.write fun _ hc => hc.write _
  | removeServer =>
    refine Ensures.bind (careful_act (closed_removeServer closed_managed managed_delete) hc₀
      fun h s target hs => atomic_removeServer (htidy h s target hs)) fun x =>
        Ensures.write fun _ hc => hc.write _

/-- Commands about subscriptions rely on an orderly interop namespace. -/
theorem careful (manager : String) (command : SubscriptionCommand) :
    Run.Careful Context.Orderly (command.run manager) := by
  intro c₀ hc₀
  have hfail : ∀ c : Context, c₀.Sees c → c.Loaded ∧ (c₀.Orderly → c₀.Sees c) :=
    fun c hc => ⟨hc.loaded hc₀, fun _ => hc⟩
  refine Ensures.bind (Ensures.server hfail) fun ⟨s, target⟩ => Ensures.assume fun hserver => ?_
  have hsees : ∀ c : Context, c.reached = some (s, target) → c₀.Sees c :=
    fun c hc => Context.sees_of_reached hserver hc
  refine Ensures.bind (Ensures.during (fun mgr c hmgr hc => And.intro hmgr (hsees c hc))
    fun c hc => hfail c (hsees c hc)) fun mgr => Ensures.assume fun hmgr => ?_
  obtain ⟨interop, hinterop, rfl⟩ := map_eq_ok.1 hmgr
  refine Ensures.bind (R := fun _ => c₀.Sees) (Ensures.console fun _ hc => hc) fun console => ?_
  refine careful_runFor hc₀ _ console (fun horderly s' target' hserver' => ?_) command
  obtain ⟨rfl, rfl⟩ := Prod.mk.inj (Except.ok.inj (hserver.symm.trans hserver'))
  exact ⟨(hc₀.reachable hserver).keyed, horderly s target interop hserver hinterop⟩

end SubscriptionCommand

/-- A command leads from servers that calls can lead to to such servers. -/
def Run.Loads {α : Type} (a : Run α) : Prop :=
  Ensures Context.Loaded a (fun _ => Context.Loaded) Context.Loaded

theorem Run.Reads.loads {α : Type} {a : Run α} (h : Reads a) : Run.Loads a := by
  refine ⟨fun c hc => ?_⟩
  have hend := (h c).loaded hc
  cases ho : Run.outcome a c with
  | mk result d =>
    rw [ho] at hend
    cases result <;> exact hend

theorem Run.Careful.loads {φ : Context → Prop} {a : Run Unit} (h : a.Careful φ) : a.Loads :=
  ⟨fun c hc => ((h c hc).mono (fun _ hd => hd) (fun _ _ hd => hd) fun _ hd => hd.1).ends c (.refl c)⟩

namespace ConnectionCommand

theorem reads_load : Reads load := Reads.get.bind fun _ => Reads.orFail _

theorem loads_store (cs : Connections) : Run.Loads (store cs) := by
  refine Ensures.bind (R := fun c d => c.Loaded ∧ d.Loaded) ⟨fun c hc => ⟨hc, hc⟩⟩ fun c => ?_
  refine Ensures.bind (R := fun _ d => c.Loaded ∧ d.Loaded)
    (Ensures.orFail (fun _ _ _ hd => hd) fun d hd => hd.2) fun files => ?_
  exact ⟨fun d hd r hr => hd.1 r hr⟩

theorem reads_chooseName (cs : Connections) (name : Option String) (purpose : String) :
    Reads (chooseName cs name purpose) := by
  unfold chooseName
  split
  · exact Reads.pure _
  split
  · exact Reads.get.bind fun _ => Reads.throw _
  · refine (Reads.ask _ _).bind fun choice => ?_
    split
    · exact Reads.pure _
    · exact Reads.throw _

theorem loads (command : ConnectionCommand) : Run.Loads command.run := by
  cases command with
  | list =>
    exact (reads_load.bind fun _ => Reads.get.bind fun _ => (Reads.console _).bind fun _ =>
      Reads.write _).loads
  | display name =>
    refine (reads_load.bind fun cs => ?_).loads
    split
    · exact Reads.throw _
    · exact (Reads.orFail _).bind fun _ => (Reads.orFail _).bind fun _ =>
        (Reads.console _).bind fun _ => Reads.write _
  | save name setDefault =>
    refine Ensures.bind Reads.get.loads fun c => Ensures.bind (Reads.orFail _).loads fun given => ?_
    split
    · exact (Reads.throw _).loads
    refine Ensures.bind (Reads.orFail _).loads fun _ => Ensures.bind reads_load.loads fun cs => ?_
    refine Ensures.bind (Reads.orFail _).loads fun ⟨replaced, cs⟩ => ?_
    have hrest : ∀ cs : Connections, Run.Loads (do
        store cs
        let console ← Run.console .text
        let c ← get
        Run.write (console.success ((if replaced then "Replaced" else "Saved") ++ " connection '"
          ++ name ++ "' in " ++ c.options.connectionsPath))) := fun cs =>
      Ensures.bind (loads_store cs) fun _ =>
        ((Reads.console _).bind fun _ => Reads.get.bind fun _ => Reads.write _).loads
    dsimp only
    split
    · exact Ensures.bind (Reads.orFail _).loads hrest
    · exact hrest cs
  | delete name =>
    refine Ensures.bind reads_load.loads fun cs => ?_
    refine Ensures.bind (reads_chooseName _ _ _).loads fun name => ?_
    refine Ensures.bind (Reads.orFail _).loads fun made => ?_
    refine Ensures.bind (loads_store _) fun _ => ?_
    exact ((Reads.console _).bind fun _ => Reads.write _).loads
  | select name =>
    refine Ensures.bind reads_load.loads fun cs => ?_
    refine Ensures.bind (reads_chooseName _ _ _).loads fun name => ?_
    refine Ensures.bind (Reads.orFail _).loads fun made => ?_
    refine Ensures.bind (loads_store _) fun _ => ?_
    exact ((Reads.console _).bind fun _ => Reads.write _).loads
  | test =>
    exact (Reads.server.bind fun _ => (Reads.during _ _).bind fun _ =>
      (Reads.console _).bind fun _ => Reads.write _).loads

end ConnectionCommand

end CimConsole
