import CimConsole.Proofs.Fanout.Run

/-!
One call on a session that is used in any way: the renderer may fail whenever it is asked. A turn
is what one call found, answered and left, with what was shown meanwhile. Every turn is one of
seven, and all that is said of turns is said by cases on these.
-/
namespace CimConsole

open Text

variable {α : Type}

/-- What can be asked of a session. -/
inductive SessionCall (α : Type) where
  | begin
  | record (space : String) (payload : α)
  | recordFailure (space : String) (e : OperationError)
  | finish

namespace SessionCall

/-- The outcome that a call brings, and the namespace that it brings it for. -/
def outcome? : SessionCall α → Option (String × Outcome α)
  | .record space payload => some (space, .success payload)
  | .recordFailure space e => some (space, Outcome.ofResult (.error e))
  | _ => none

/-- The answer to a call and the session behind it. Only opening a session answers namespaces. -/
def on {m : Type → Type} [Monad m] (r : Renderer m α) (s : Session α) :
    SessionCall α → m (Except SessionError (List String) × Session α)
  | .begin => pure s.begin
  | .record space payload => do
    let (answer, s) := s.record space payload
    pure (answer.map fun _ => [], s)
  | .recordFailure space e => do
    let (answer, s) ← s.recordFailure r space e
    pure (answer.map fun _ => [], s)
  | .finish => do
    let (answer, s) ← s.finish r
    pure (answer.map fun _ => [], s)

end SessionCall

namespace Sight

def isRendered : Sight α → Bool
  | .rendered .. => true
  | _ => false

def isReported : Sight α → Bool
  | .reported .. => true
  | _ => false

/-- Leaves what is to be shown, and fails if `faults` says so for all that was left so far. -/
def leave (faults : List (Sight α) → Option String) (sight : Sight α) :
    StateM (List (Sight α)) (Except String Unit) := do
  let seen ← get
  set (seen ++ [sight])
  match faults (seen ++ [sight]) with
  | none => pure (.ok ())
  | some cause => pure (.error cause)

/-- A renderer that may fail at any time. -/
def faultyRenderer (faults : List (Sight α) → Option String) :
    Renderer (StateM (List (Sight α))) α where
  render objectType results := leave faults (.rendered objectType results)
  report objectType target failures := leave faults (.reported objectType target failures)

end Sight

/-- One call on a session: what it found, answered and left, and what was shown meanwhile. -/
structure Turn (α : Type) where
  call : SessionCall α
  before : Session α
  answer : Except SessionError (List String)
  shown : List (Sight α)
  after : Session α

namespace Session

def turn (faults : List (Sight α) → Option String) (s : Session α) (call : SessionCall α) :
    Turn α :=
  let ((answer, after), shown) := (call.on (Sight.faultyRenderer faults) s).run []
  { call, before := s, answer, shown, after }

/-- The slots of a name in their order, open or filled. -/
def outcomesOf (s : Session α) (name : String) : List (Option (Outcome α)) :=
  (s.slots.filter fun slot => sameName slot.1 name).map (·.2)

def openSlots (s : Session α) : Nat := s.slots.countP fun slot => slot.2.isNone

end Session

def Phase.isOver : Phase → Bool
  | .idle | .iterating => false
  | .allFailed | .aborted | .closed => true

@[simp] theorem Phase.isOver_idle : Phase.idle.isOver = false := rfl

@[simp] theorem Phase.isOver_iterating : Phase.iterating.isOver = false := rfl

@[simp] theorem Phase.isOver_allFailed : Phase.allFailed.isOver = true := rfl

@[simp] theorem Phase.isOver_aborted : Phase.aborted.isOver = true := rfl

@[simp] theorem Phase.isOver_closed : Phase.closed.isOver = true := rfl

namespace Turn

/-- The call was refused. -/
def Misused (t : Turn α) : Prop := ∃ text, t.answer = .error (.misuse text)

def opens (t : Turn α) : Bool :=
  match t.call, t.answer with
  | .begin, .ok _ => true
  | _, _ => false

/-- The outcome that was recorded under a name, whatever its letter case. -/
def recorded? (name : String) (t : Turn α) : Option (Outcome α) :=
  match t.answer with
  | .error (.misuse _) => none
  | _ => (t.call.outcome?.filter fun o => sameName o.1 name).map (·.2)

/-- A recoverable failure fills the last open slot, and with it all slots hold one. -/
def FailsLast (t : Turn α) : Prop :=
  ∃ space cause, t.call = .recordFailure space (.server cause) ∧ cause.isRecoverable = true ∧
    t.before.openSlots = 1 ∧ ∀ slot ∈ t.after.slots, ∃ e, slot.2 = some (.failure e)

/-- An abort, an end because all failed, or a call to finish. -/
def Exits (t : Turn α) : Prop :=
  t.call = .finish ∨ t.after.phase = .aborted ∨ t.after.phase = .allFailed

/-- What is shown is the session as it was left, slot after slot. -/
def Shows (s : Session α) : Sight α → Prop
  | .called _ => False
  | .rendered objectType results => objectType = s.objectType ∧ results = s.results
  | .reported objectType target failures =>
    objectType = s.objectType ∧ target = s.target ∧ failures = s.failures

/-- What a call can do to a session. Every outcome that is kept raises the counter; the one that
aborts does not. -/
inductive Does : Turn α → Prop where
  | refused {call : SessionCall α} {s : Session α} {text : String} (hcall : call ≠ .finish) :
      Does ⟨call, s, .error (.misuse text), [], s⟩
  | opened {s : Session α} (hphase : s.phase = .idle) :
      Does ⟨.begin, s, .ok s.spaces, [], { s with phase := .iterating }⟩
  | kept {call : SessionCall α} {s : Session α} {space : String} {outcome : Outcome α}
      {slots : List (String × Option (Outcome α))}
      (hcall : call.outcome? = some (space, outcome)) (hphase : s.phase = .iterating)
      (hfill : Session.fill space outcome s.slots = some slots)
      (hfatal : ∀ e, outcome ≠ .fatal e)
      (hgo : ∀ cause, outcome = .failure cause → s.completed + 1 = slots.length →
        ∃ slot ∈ slots, ∃ payload, slot.2 = some (.success payload)) :
      Does ⟨call, s, .ok [], [], { s with slots, completed := s.completed + 1 }⟩
  | aborted {s : Session α} {space : String} {e : OperationError}
      {slots : List (String × Option (Outcome α))} (hphase : s.phase = .iterating)
      (hfatal : e.isRecoverable = false)
      (hfill : Session.fill space (.fatal e) s.slots = some slots) :
      Does ⟨.recordFailure space e, s, .error (.escalated s.objectType space e), [],
        { s with slots, phase := .aborted }⟩
  | failedInAll {s t : Session α} {space : String} {cause : ServerError}
      {slots : List (String × Option (Outcome α))} {answer : Except SessionError (List String)}
      (hphase : s.phase = .iterating) (hcause : cause.isRecoverable = true)
      (hfill : Session.fill space (.failure cause) s.slots = some slots)
      (ht : t = { s with slots, completed := s.completed + 1, phase := .allFailed })
      (hcount : s.completed + 1 = slots.length)
      (hnone : ∀ slot ∈ slots, ∀ payload, slot.2 ≠ some (.success payload))
      (hanswer : answer = .error (.allFailed s.objectType s.target space cause) ∨
        ∃ fault, answer = .error (.unwritten fault)) :
      Does ⟨.recordFailure space (.server cause), s, answer,
        [.reported t.objectType t.target t.failures], t⟩
  | closed {s t : Session α} {answer : Except SessionError (List String)}
      {reports : List (Sight α)} (hphase : s.phase.isOver = false)
      (ht : t = { s with phase := .closed })
      (hreports : reports = [] ∨ reports = [.reported t.objectType t.target t.failures])
      (hanswer : answer = .ok [] ∨ ∃ fault, answer = .error (.unwritten fault)) :
      Does ⟨.finish, s, answer, .rendered t.objectType t.results :: reports, t⟩
  | passed {s : Session α} (hphase : s.phase.isOver = true) : Does ⟨.finish, s, .ok [], [], s⟩

end Turn

namespace Session

variable {faults : List (Sight α) → Option String} {s : Session α}

theorem fill_eq_some {space : String} {outcome : Outcome α}
    {slots slots' : List (String × Option (Outcome α))}
    (h : fill space outcome slots = some slots') :
    ∃ before name after, slots = before ++ (name, none) :: after ∧ sameName name space = true ∧
      (∀ slot ∈ before, slot.2 = none → sameName slot.1 space = false) ∧
      slots' = before ++ (name, some outcome) :: after := by
  induction slots generalizing slots' with
  | nil => cases h
  | cons slot rest ih =>
    obtain ⟨name, held⟩ := slot
    have hskip : ∀ {rest'}, fill space outcome rest = some rest' →
        (held = none → sameName name space = false) →
        ∃ before name' after, (name, held) :: rest = before ++ (name', none) :: after ∧
          sameName name' space = true ∧
          (∀ slot ∈ before, slot.2 = none → sameName slot.1 space = false) ∧
          (name, held) :: rest' = before ++ (name', some outcome) :: after := by
      intro rest' hrest hname
      obtain ⟨before, name', after, rfl, hsame, hbefore, rfl⟩ := ih hrest
      refine ⟨(name, held) :: before, name', after, rfl, hsame, fun slot hslot => ?_, rfl⟩
      rcases List.mem_cons.1 hslot with rfl | hslot
      · exact hname
      · exact hbefore slot hslot
    cases held with
    | some o =>
      obtain ⟨rest', hrest, rfl⟩ := Option.map_eq_some_iff.1 h
      exact hskip hrest fun heq => by cases heq
    | none =>
      rw [fill] at h
      split at h
      · next hname =>
        obtain rfl := Option.some.inj h
        exact ⟨[], name, rest, rfl, hname, fun _ hslot => absurd hslot List.not_mem_nil, rfl⟩
      · next hname =>
        obtain ⟨rest', hrest, rfl⟩ := Option.map_eq_some_iff.1 h
        exact hskip hrest fun _ => Bool.eq_false_iff.2 hname

/-- An outcome is placed in an open session with an open slot of the name, or refused. -/
theorem placed_cases (s : Session α) (space : String) (outcome : Outcome α) :
    (∃ text, s.placed space outcome = .error (.misuse text)) ∨
    ∃ slots, s.phase = .iterating ∧ fill space outcome s.slots = some slots ∧
      s.placed space outcome = .ok { s with slots } := by
  unfold placed
  split
  · exact Or.inl ⟨_, rfl⟩
  · next hphase =>
    cases hfill : fill space outcome s.slots with
    | none => exact Or.inl ⟨_, rfl⟩
    | some slots => exact Or.inr ⟨slots, Decidable.not_not.1 hphase, rfl, rfl⟩

theorem does_record (space : String) (payload : α) :
    (s.turn faults (.record space payload)).Does := by
  rcases placed_cases s space (.success payload) with ⟨text, hp⟩ | ⟨slots, hphase, hfill, hp⟩
  · have hturn : s.turn faults (.record space payload) =
        ⟨.record space payload, s, .error (.misuse text), [], s⟩ := by
      simp [turn, SessionCall.on, record, hp]
      rfl
    rw [hturn]
    exact .refused fun heq => by cases heq
  · have hturn : s.turn faults (.record space payload) =
        ⟨.record space payload, s, .ok [], [],
          { s with slots, completed := s.completed + 1 }⟩ := by
      simp [turn, SessionCall.on, record, hp]
      rfl
    rw [hturn]
    exact .kept rfl hphase hfill (fun _ heq => by cases heq) fun _ heq => by cases heq

/-- An error is kept as it is or ends the session. -/
theorem ofResult_error (e : OperationError) :
    (e.isRecoverable = false ∧ (Outcome.ofResult (.error e) : Outcome α) = .fatal e) ∨
    ∃ cause, e = .server cause ∧ cause.isRecoverable = true ∧
      (Outcome.ofResult (.error e) : Outcome α) = .failure cause := by
  cases e with
  | filter e => exact Or.inl ⟨rfl, rfl⟩
  | server cause =>
    cases hc : cause.isRecoverable with
    | false => exact Or.inl ⟨hc, by simp [Outcome.ofResult, hc]⟩
    | true => exact Or.inr ⟨cause, rfl, hc, ofResult_recoverable hc⟩

theorem hasSuccess_iff : s.hasSuccess = true ↔
    ∃ slot ∈ s.slots, ∃ payload, slot.2 = some (.success payload) := by
  have hpayload : ∀ held : Option (Outcome α),
      (held.bind Outcome.payload?).isSome = true ↔ ∃ payload, held = some (.success payload) := by
    rintro (- | (payload | e | e)) <;> simp [Outcome.payload?]
  simp only [hasSuccess, List.any_eq_true, hpayload]

theorem does_recordFailure (space : String) (e : OperationError) :
    (s.turn faults (.recordFailure space e)).Does := by
  rcases placed_cases s space (Outcome.ofResult (.error e)) with
    ⟨text, hp⟩ | ⟨slots, hphase, hfill, hp⟩
  · have hturn : s.turn faults (.recordFailure space e) =
        ⟨.recordFailure space e, s, .error (.misuse text), [], s⟩ := by
      simp [turn, SessionCall.on, recordFailure, hp]
      rfl
    rw [hturn]
    exact .refused fun heq => by cases heq
  rcases ofResult_error (α := α) e with ⟨hfatal, ho⟩ | ⟨cause, rfl, hcause, ho⟩
  · rw [ho] at hp hfill
    have hturn : s.turn faults (.recordFailure space e) =
        ⟨.recordFailure space e, s, .error (.escalated s.objectType space e), [],
          { s with slots, phase := .aborted }⟩ := by
      simp [turn, SessionCall.on, recordFailure, ho, hp]
      rfl
    rw [hturn]
    exact .aborted hphase hfatal hfill
  · have hcall : (SessionCall.recordFailure space (.server cause) : SessionCall α).outcome? =
        some (space, .failure cause) := by rw [SessionCall.outcome?, ho]
    rw [ho] at hp hfill
    let kept : Session α := { s with slots, completed := s.completed + 1 }
    have hlength : kept.spaces.length = slots.length := List.length_map _
    cases hend : kept.completed == kept.spaces.length && !kept.hasSuccess with
    | false =>
      have hturn : s.turn faults (.recordFailure space (.server cause)) =
          ⟨.recordFailure space (.server cause), s, .ok [], [], kept⟩ := by
        simp only [turn, SessionCall.on, recordFailure, ho, hp]
        rw [if_neg (by simpa using hend)]
        rfl
      rw [hturn]
      refine .kept hcall hphase hfill (fun _ heq => by cases heq) fun _ _ hcount => ?_
      have hfull : kept.completed = kept.spaces.length := hcount.trans hlength.symm
      simpa [hfull, hasSuccess_iff] using hend
    | true =>
      let t : Session α := { kept with phase := .allFailed }
      have hturn : ∃ answer, s.turn faults (.recordFailure space (.server cause)) =
          ⟨.recordFailure space (.server cause), s, answer,
            [.reported t.objectType t.target t.failures], t⟩ ∧
          (answer = .error (.allFailed s.objectType s.target space cause) ∨
            ∃ fault, answer = .error (.unwritten fault)) := by
        simp only [turn, SessionCall.on, recordFailure, ho, hp]
        rw [if_pos hend]
        cases hfault : faults [.reported t.objectType t.target t.failures] with
        | none =>
          refine ⟨_, ?_, Or.inl rfl⟩
          simp [Sight.faultyRenderer, Sight.leave, t, kept, hfault]
          rfl
        | some fault =>
          refine ⟨_, ?_, Or.inr ⟨fault, rfl⟩⟩
          simp [Sight.faultyRenderer, Sight.leave, t, kept, hfault]
          rfl
      obtain ⟨answer, hturn, hanswer⟩ := hturn
      rw [hturn]
      obtain ⟨hcount, hsuccess⟩ := Bool.and_eq_true_iff.1 hend
      refine .failedInAll hphase hcause hfill rfl ?_ ?_ hanswer
      · exact (beq_iff_eq.1 hcount).trans hlength
      · intro slot hslot payload hheld
        have : kept.hasSuccess = true := hasSuccess_iff.2 ⟨slot, hslot, payload, hheld⟩
        simp [this] at hsuccess

theorem isOver_eq_false_iff (p : Phase) : p.isOver = false ↔ p = .idle ∨ p = .iterating := by
  cases p <;> simp [Phase.isOver]

theorem does_finish : (s.turn faults .finish).Does := by
  cases hover : s.phase.isOver with
  | true =>
    have hphase : ¬ (s.phase = .idle ∨ s.phase = .iterating) := by
      rw [← isOver_eq_false_iff, hover]
      nofun
    have hturn : s.turn faults .finish = ⟨.finish, s, .ok [], [], s⟩ := by
      simp only [turn, SessionCall.on, finish, if_neg hphase]
      rfl
    rw [hturn]
    exact .passed hover
  | false =>
    let t : Session α := { s with phase := .closed }
    have hturn : ∃ answer reports, s.turn faults .finish =
        ⟨.finish, s, answer, .rendered t.objectType t.results :: reports, t⟩ ∧
        (reports = [] ∨ reports = [.reported t.objectType t.target t.failures]) ∧
        (answer = .ok [] ∨ ∃ fault, answer = .error (.unwritten fault)) := by
      simp only [turn, SessionCall.on, finish, if_pos ((isOver_eq_false_iff _).1 hover)]
      cases hrender : faults [.rendered t.objectType t.results] with
      | some fault =>
        refine ⟨.error (.unwritten fault), [], ?_, Or.inl rfl, Or.inr ⟨fault, rfl⟩⟩
        simp [Sight.faultyRenderer, Sight.leave, t, hrender]
        rfl
      | none =>
        by_cases hnone : t.failures = []
        · refine ⟨.ok [], [], ?_, Or.inl rfl, Or.inl rfl⟩
          simp [Sight.faultyRenderer, Sight.leave, t, hrender, hnone]
          rfl
        · cases hreport : faults [.rendered t.objectType t.results,
              .reported t.objectType t.target t.failures] with
          | some fault =>
            refine ⟨.error (.unwritten fault), _, ?_, Or.inr rfl, Or.inr ⟨fault, rfl⟩⟩
            simp [Sight.faultyRenderer, Sight.leave, t, hrender, hnone, hreport]
            rfl
          | none =>
            refine ⟨.ok [], _, ?_, Or.inr rfl, Or.inl rfl⟩
            simp [Sight.faultyRenderer, Sight.leave, t, hrender, hnone, hreport]
            rfl
    obtain ⟨answer, reports, hturn, hreports, hanswer⟩ := hturn
    rw [hturn]
    exact .closed hover rfl hreports hanswer

/-- What a call does is one of the cases. -/
theorem turn_does (faults : List (Sight α) → Option String) (s : Session α)
    (call : SessionCall α) : (s.turn faults call).Does := by
  cases call with
  | begin =>
    by_cases hphase : s.phase = .idle
    · have hturn : s.turn faults .begin =
          ⟨.begin, s, .ok s.spaces, [], { s with phase := .iterating }⟩ := by
        simp only [turn, SessionCall.on, begin, if_pos hphase]
        rfl
      rw [hturn]
      exact .opened hphase
    · have hturn : s.turn faults .begin =
          ⟨.begin, s, .error (.misuse "begin() called twice"), [], s⟩ := by
        simp only [turn, SessionCall.on, begin, if_neg hphase]
        rfl
      rw [hturn]
      exact .refused fun heq => by cases heq
  | record space payload => exact does_record space payload
  | recordFailure space e => exact does_recordFailure space e
  | finish => exact does_finish

end Session

end CimConsole
