import CimConsole.Proofs.Command.Failures
import CimConsole.Shell

/-!
Lines of a shell. Every line leads from servers that calls can lead to to such servers, so the
server that a line finds is one of them, whatever lines came before. A command on a line that fails
is told, and has left the server as it was.
-/
namespace CimConsole

open Run (Reads Ensures)

namespace Command

/-- Whether a command is about a server: not about saved connections, and not the shell. -/
def isRemote : Command → Bool
  | .connections _ | .shell => false
  | _ => true

/-- Whether a command may change a server. -/
def changes : Command → Bool
  | .instances c => c.changes
  | .subscriptions .. => true
  | _ => false

/-- What a command needs so that a failure leaves no trace. -/
def Relies (command : Command) (c : Context) : Prop :=
  match command with
  | .subscriptions .. => c.Orderly
  | _ => True

theorem careful {command : Command} (h : command.isRemote = true) :
    command.run.Careful command.Relies := by
  cases command with
  | connections command => cases h
  | shell => cases h
  | classes command => exact command.reads.careful _
  | qualifiers command => exact command.reads.careful _
  | namespaces command => exact command.reads.careful _
  | instances command =>
    cases hchanges : command.changes with
    | false => exact (command.reads hchanges).careful _
    | true =>
      cases command with
      | create className assignments space => exact InstanceCommand.careful_create _ _
      | delete name space => exact InstanceCommand.careful_delete _
      | _ => cases hchanges
  | subscriptions manager command => exact SubscriptionCommand.careful manager command

theorem loads (command : Command) : command.run.Loads := by
  cases command with
  | connections command => exact command.loads
  | shell => exact (Reads.pure ()).loads
  | _ => exact (careful rfl).loads

/-- Commands that change nothing only read, also where they tell what failed in some namespaces. -/
theorem reads {command : Command} (h : command.isRemote = true) (hchanges : command.changes = false) :
    Reads command.run := by
  cases command with
  | connections command => cases h
  | shell => cases h
  | subscriptions manager command => cases hchanges
  | classes command => exact command.reads
  | qualifiers command => exact command.reads
  | namespaces command => exact command.reads
  | instances command => exact command.reads hchanges

end Command

namespace Shell

variable {c d : Context}

theorem run_runCommand_ok {command : Command} (h : command ≠ .shell) {x : Unit}
    (ho : command.run.outcome c = (.ok x, d)) : (runCommand command).run c = ((), d) := by
  have hrun : command.run.run.run c = (.ok x, d) := ho
  rw [runCommand.eq_2 _ h, StateT.run_bind, hrun]
  rfl

/-- A failure is told on top of what the command wrote. -/
theorem run_runCommand_error {command : Command} (h : command ≠ .shell) {e : Failure}
    (ho : command.run.outcome c = (.error e, d)) :
    (runCommand command).run c = ((), d.complain ((d.console .text).error e.text)) := by
  have hrun : command.run.run.run c = (.error e, d) := ho
  rw [runCommand.eq_2 _ h, StateT.run_bind, hrun]
  rfl

theorem loaded_runCommand (command : Command) (hc : c.Loaded) :
    ((runCommand command).run c).2.Loaded := by
  by_cases h : command = .shell
  · subst h
    exact hc.complain _
  · have hend := command.loads.ends c hc
    cases ho : command.run.outcome c with
    | mk result d =>
      rw [ho] at hend
      cases result with
      | ok x =>
        rw [run_runCommand_ok h ho]
        exact hend
      | error e =>
        rw [run_runCommand_error h ho]
        exact hend.complain _

theorem loaded_runLine (line : String) (hc : c.Loaded) : ((runLine line).run c).2.Loaded := by
  unfold runLine
  split
  · exact hc
  · exact hc
  · exact hc.complain _
  · dsimp only
    split
    · exact hc.write _
    · exact hc.complain _
  · exact loaded_runCommand _ hc

/-- Whatever lines are run, the server is one that calls can lead to. -/
theorem loaded_run (lines : List String) (hc : c.Loaded) : ((run lines).run c).2.Loaded := by
  induction lines generalizing c with
  | nil => exact hc
  | cons line rest ih =>
    have hline := loaded_runLine line hc
    rw [run, StateT.run_bind]
    generalize (runLine line).run c = ended at hline
    obtain ⟨goes, d⟩ := ended
    cases goes with
    | false => exact hline
    | true => exact ih hline

/-- Failures leave no trace. An operation of a manager that fails, on whatever server calls lead to
and whatever its user chooses, leaves all of the server as it was. So does a command that fails on
a line of a shell, whatever lines came before; the failure is told. Commands that neither create
nor delete leave the server as it was in any case. -/
theorem failures_keep_server {σ : Type} :
    (∀ (s : Server) (mgr : Manager), s.Reachable → s.At mgr.interop Namespace.Orderly →
      ∀ (chooser : Chooser (StateM σ)) (call : SubscriptionCall) (user user' : σ)
        (e : SubscriptionError) (t : Server),
        (mgr.perform chooser call).outcome s user = ((.error e, t), user') → t = s) ∧
    ∀ (c₀ : Context), c₀.Loaded → ∀ (lines : List String) (c : Context),
      ((run lines).run c₀).2 = c → ∀ command : Command, command.isRemote = true →
        command.Relies c →
          (∀ e d, command.run.outcome c = (.error e, d) → d.server = c.server ∧
            (runCommand command).run c = ((), d.complain ((d.console .text).error e.text))) ∧
          (command.changes = false → ((runCommand command).run c).2.server = c.server) := by
  constructor
  · intro s mgr hreachable horderly chooser call user user' e t hfail
    have hend := mgr.atomic_perform ⟨hreachable.keyed, horderly⟩ chooser call s user rfl
    rwa [hfail] at hend
  · intro c₀ hc₀ lines c hc command hremote hrelies
    have hloaded : c.Loaded := hc ▸ loaded_run lines hc₀
    have hshell : command ≠ .shell := by
      rintro rfl
      cases hremote
    constructor
    · intro e d hfail
      have hend := (Command.careful hremote c hloaded).ends c (.refl c)
      rw [hfail] at hend
      exact ⟨(hend.2 hrelies).server, run_runCommand_error hshell hfail⟩
    · intro hchanges
      have hend := Command.reads hremote hchanges c
      cases ho : command.run.outcome c with
      | mk result d =>
        rw [ho] at hend
        cases result with
        | ok x =>
          rw [run_runCommand_ok hshell ho]
          exact hend.server
        | error e =>
          rw [run_runCommand_error hshell ho]
          exact hend.server

/-- A subscription to a filter that is not there, by an operation and by a command. -/
theorem failures_keep_server_of_addSubscription :
    ∃ s, (Server.indicationRepository (.text "host")).server none "mock" = .ok s ∧
      (∃ e, ((Manager.mk "manager" "interop" "mock").perform (fun _ _ => pure none)
        (.addSubscription "d" "g" true false)).outcome s () = ((.error e, s), ())) ∧
      ∃ e d, (Command.subscriptions "manager" (.addSubscription "d" "g" true false)).run.outcome
          { options := {}, reached := some (s, .mock []) } = (.error e, d) ∧
        d.server = .ok (s, .mock []) := by
  let mgr : Manager := ⟨"manager", "interop", "mock"⟩
  let chooser : Chooser (StateM Unit) := fun _ _ => pure none
  let call : SubscriptionCall := .addSubscription "d" "g" true false
  let command : Command := .subscriptions "manager" (.addSubscription "d" "g" true false)
  obtain ⟨s, hload, hinterop, horderly, hcall, hcommand⟩ : ∃ s,
      (Server.indicationRepository (.text "host")).server none "mock" = .ok s ∧
      s.interop.toOption = some "interop" ∧ s.At "interop" Namespace.Orderly ∧
      ((mgr.perform chooser call).outcome s ()).1.1.toOption.isNone = true ∧
      (command.run.outcome { options := {}, reached := some (s, .mock []) }).1.toOption.isNone =
        true := exists_ok_of_any (by decide +kernel)
  obtain ⟨hcalls, hlines⟩ := @failures_keep_server Unit
  have hreachable := Server.reachable_of_repository hload
  refine ⟨s, hload, ?_, ?_⟩
  · obtain ⟨e, he⟩ := exists_error_of_isNone hcall
    have hsame := hcalls s mgr hreachable horderly chooser call () () e _
      (Prod.ext (Prod.ext he rfl) rfl)
    exact ⟨e, Prod.ext (Prod.ext he hsame) rfl⟩
  · obtain ⟨e, he⟩ := exists_error_of_isNone hcommand
    have hloaded : Context.Loaded { options := {}, reached := some (s, .mock []) } := by
      rintro r hr
      obtain rfl := Option.some.inj hr
      exact hreachable
    have hrelies : command.Relies { options := {}, reached := some (s, .mock []) } := by
      intro s' target interop hs' hinterop'
      obtain ⟨rfl, -⟩ := Prod.mk.inj (Except.ok.inj hs')
      obtain rfl := Except.ok.inj ((toOption_eq_some.1 hinterop).symm.trans hinterop')
      exact horderly
    obtain ⟨hfail, -⟩ := hlines _ hloaded [] _ rfl command rfl hrelies
    exact ⟨e, _, Prod.ext he rfl, (hfail e _ (Prod.ext he rfl)).1⟩

end Shell

end CimConsole
