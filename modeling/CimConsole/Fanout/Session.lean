import CimConsole.Filter

/-!
One operation run in a list of namespaces. A session gives every namespace one outcome.
A failure that may be peculiar to the namespace is kept and reported at the end; any
other failure ends the session at once. If all namespaces fail the session fails as a
whole. What is shown goes through a renderer, whose writing may itself fail.
-/
namespace CimConsole

open Text

inductive Outcome (α : Type) where
  | success (payload : α)
  | failure (e : ServerError)
  | fatal (e : OperationError)

namespace Outcome

variable {α : Type}

/-- The outcome that a result stands for. -/
def ofResult : Except OperationError α → Outcome α
  | .ok payload => .success payload
  | .error (.server e) => if e.isRecoverable then .failure e else .fatal (.server e)
  | .error e => .fatal e

def payload? : Outcome α → Option α
  | .success payload => some payload
  | _ => none

def failure? : Outcome α → Option ServerError
  | .failure e => some e
  | _ => none

end Outcome

/-- Why a session fails. -/
inductive SessionError where
  | escalated (objectType space : String) (cause : OperationError)
  | allFailed (objectType target space : String) (cause : ServerError)
  | unwritten (cause : String)
  | misuse (text : String)
deriving DecidableEq, Repr

namespace SessionError

def message : SessionError → String
  | .escalated objectType space _ =>
    objectType ++ " operation aborted in namespace '" ++ space ++ "'"
  | .allFailed objectType target space _ =>
    objectType ++ " operation for '" ++ target ++ "' failed in all namespaces; last failure in '"
      ++ space ++ "'"
  | .unwritten _ => "failed to write output"
  | .misuse text => "result session misuse: " ++ text

/-- The message and the causes under it. -/
def chain (e : SessionError) : List String :=
  match e with
  | .escalated _ _ cause => [e.message, cause.message]
  | .allFailed _ _ _ cause => [e.message, cause.message]
  | .unwritten cause => [e.message, cause]
  | .misuse _ => [e.message]

end SessionError

inductive Phase where
  | idle
  | iterating
  | allFailed
  | aborted
  | closed
deriving DecidableEq, Repr

def Phase.text : Phase → String
  | .idle => "Idle"
  | .iterating => "Iterating"
  | .allFailed => "AllFailed"
  | .aborted => "Aborted"
  | .closed => "Closed"

/-- The two ways of showing what came out; each may answer why it could not write. -/
structure Renderer (m : Type → Type) (α : Type) where
  render : (objectType : String) → List (String × Option α) → m (Except String Unit)
  report : (objectType target : String) → List (String × ServerError) → m (Except String Unit)

structure Session (α : Type) where
  objectType : String
  target : String
  slots : List (String × Option (Outcome α))
  /-- How many results and recoverable failures were recorded. -/
  completed : Nat := 0
  phase : Phase := .idle

namespace Session

variable {α : Type} {m : Type → Type}

def start (objectType target : String) (spaces : List String) : Session α where
  objectType
  target
  slots := spaces.map fun space => (space, none)

def spaces (s : Session α) : List String := s.slots.map (·.1)

/-- Every namespace with its payload, or none where it failed. -/
def results (s : Session α) : List (String × Option α) :=
  s.slots.map fun slot => (slot.1, slot.2.bind Outcome.payload?)

def failures (s : Session α) : List (String × ServerError) :=
  s.slots.filterMap fun slot => (slot.2.bind Outcome.failure?).map fun e => (slot.1, e)

def hasSuccess (s : Session α) : Bool := s.slots.any fun slot => (slot.2.bind Outcome.payload?).isSome

/-- Opens the session and gives the namespaces to run in; only once. -/
def begin (s : Session α) : Except SessionError (List String) × Session α :=
  if s.phase = .idle then (.ok s.spaces, { s with phase := .iterating })
  else (.error (.misuse "begin() called twice"), s)

/-- Fills the first open slot of a name. -/
def fill (space : String) (outcome : Outcome α) :
    List (String × Option (Outcome α)) → Option (List (String × Option (Outcome α)))
  | [] => none
  | (name, none) :: rest =>
    if sameName name space then some ((name, some outcome) :: rest)
    else (fill space outcome rest).map ((name, none) :: ·)
  | slot :: rest => (fill space outcome rest).map (slot :: ·)

/-- The session with the outcome in its slot. -/
def placed (s : Session α) (space : String) (outcome : Outcome α) :
    Except SessionError (Session α) :=
  if s.phase ≠ .iterating then
    .error (.misuse ("outcome for '" ++ space ++ "' recorded in state " ++ s.phase.text))
  else
    match fill space outcome s.slots with
    | none => .error (.misuse ("no pending namespace '" ++ space ++ "' in session"))
    | some slots => .ok { s with slots }

def record (s : Session α) (space : String) (payload : α) : Except SessionError Unit × Session α :=
  match s.placed space (.success payload) with
  | .error e => (.error e, s)
  | .ok s => (.ok (), { s with completed := s.completed + 1 })

/-- Records a failure. The last of nothing but failures is reported at once. A failure that
ends the session does not count as completed. -/
def recordFailure [Monad m] (r : Renderer m α) (s : Session α) (space : String)
    (e : OperationError) : m (Except SessionError Unit × Session α) :=
  let outcome := Outcome.ofResult (.error e)
  match s.placed space outcome with
  | .error misuse => pure (.error misuse, s)
  | .ok s =>
    match outcome with
    | .failure cause =>
      let s := { s with completed := s.completed + 1 }
      if s.completed == s.spaces.length && !s.hasSuccess then do
        let s := { s with phase := .allFailed }
        match ← r.report s.objectType s.target s.failures with
        | .error fault => pure (.error (.unwritten fault), s)
        | .ok _ => pure (.error (.allFailed s.objectType s.target space cause), s)
      else pure (.ok (), s)
    | _ => pure (.error (.escalated s.objectType space e), { s with phase := .aborted })

/-- Shows the results, then the failures if there are any; does nothing in a session that
has ended. -/
def finish [Monad m] (r : Renderer m α) (s : Session α) :
    m (Except SessionError Unit × Session α) :=
  if s.phase = .idle ∨ s.phase = .iterating then do
    let s := { s with phase := .closed }
    match ← r.render s.objectType s.results with
    | .error fault => pure (.error (.unwritten fault), s)
    | .ok _ =>
      if s.failures.isEmpty then pure (.ok (), s)
      else
        match ← r.report s.objectType s.target s.failures with
        | .error fault => pure (.error (.unwritten fault), s)
        | .ok _ => pure (.ok (), s)
  else pure (.ok (), s)

/-- Runs an operation in the namespaces that are left and closes the session. -/
def runIn [Monad m] (r : Renderer m α) (op : String → m (Except OperationError α)) :
    List String → Session α → m (Except SessionError Unit)
  | [], s => do
    let (result, _) ← s.finish r
    pure result
  | space :: rest, s => do
    let (result, s) ← match ← op space with
      | .ok payload => pure (s.record space payload)
      | .error e => s.recordFailure r space e
    match result with
    | .error e => pure (.error e)
    | .ok _ => runIn r op rest s

/-- Runs an operation in every namespace in order. -/
def run [Monad m] (r : Renderer m α) (s : Session α)
    (op : String → m (Except OperationError α)) : m (Except SessionError Unit) :=
  match s.begin with
  | (.error e, _) => pure (.error e)
  | (.ok spaces, s) => runIn r op spaces s

end Session

end CimConsole
