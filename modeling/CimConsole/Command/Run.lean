import CimConsole.Fanout.Namespaces
import CimConsole.Input.Question
import CimConsole.Options
import CimConsole.Output.Console

/-!
What a command runs in: the options, the files, the lines that the user has yet to give,
the server once it is reached, and the texts written so far. A command that fails leaves
all this as it stood when it failed.
-/
namespace CimConsole

open Text

structure Context where
  options : Options
  files : Files := {}
  terminal : Terminal := {}
  /-- Whether warnings are told on the side. -/
  warns : Bool := false
  answers : List String := []
  reached : Option (Server × Target) := none
  out : String := ""
  err : String := ""
  /-- What stood on the terminal when the user was first asked in vain. -/
  unanswered : Option (String × String) := none

namespace Context

def write (s : String) (c : Context) : Context := { c with out := c.out ++ s }

def complain (s : String) (c : Context) : Context := { c with err := c.err ++ s }

/-- The console in the format that is asked for, or else in this one. -/
def console (c : Context) (format : OutputFormat) : Console where
  format := c.options.outputFormat.getD format
  terminal := c.terminal

/-- Asks a question and takes one line as the answer. -/
def ask : Chooser (StateM Context) := fun prompt choices => do
  modify (complain (Question.text prompt choices))
  let c ← get
  match c.answers with
  | [] =>
    set { c with unanswered := c.unanswered.or (some (c.out, c.err)) }
    pure none
  | line :: rest =>
    set { c with answers := rest }
    pure (Question.chosen? choices.length line)

/-- Writes what comes out of several namespaces. -/
def renderer (console : Console) : Renderer (StateM Context) Objects where
  render objectType results := do
    modify (write (console.results objectType results))
    pure (.ok ())
  report objectType target failures := do
    modify (complain (console.failures objectType target failures))
    pure (.ok ())

end Context

/-- A command in its context. -/
abbrev Run := ExceptT Failure (StateM Context)

namespace Run

variable {α : Type}

def orFail : Except Failure α → Run α
  | .ok a => pure a
  | .error f => throw f

def write (s : String) : Run Unit := modify (Context.write s)

def complain (s : String) : Run Unit := modify (Context.complain s)

def console (format : OutputFormat) : Run Console := do return (← get).console format

def ask (prompt : String) (choices : List String) : Run (Option Nat) :=
  ExceptT.lift (Context.ask prompt choices)

/-- The server of the options, which is reached once. -/
def server : Run (Server × Target) := do
  let c ← get
  match c.reached with
  | some r => pure r
  | none =>
    let r ← orFail (c.options.connect c.files)
    set { c with reached := some r }
    pure r

/-- Keeps the server as it came out of a change. -/
def keep (s : Server) : Run Unit :=
  modify fun c => { c with reached := c.reached.map fun (_, target) => (s, target) }

/-- The answer of a server, or its error as the failure of a task. -/
def during (task : Task) (r : Except ServerError α) : Run α := orFail (r.mapError (.during task))

/-- The namespaces for a command. -/
def chooseSpaces (s : Server) (requested : List String) (all : Bool) : Run (List String) := do
  let chosen ← during .chooseNamespaces (s.chooseNamespaces requested all)
  match chosen.warning with
  | some w =>
    if (← get).warns then complain (" WARN " ++ w ++ "\n")
  | none => pure ()
  pure chosen.names

/-- Runs an operation in namespaces and writes what comes out. -/
def inNamespaces (console : Console) (objectType target : String) (spaces : List String)
    (op : String → Except OperationError Objects) : Run Unit := do
  let session : Session Objects := Session.start objectType target spaces
  match ← ExceptT.lift (session.run (Context.renderer console) fun space => pure (op space)) with
  | .ok _ => pure ()
  | .error e => throw (.session e)

end Run

end CimConsole
