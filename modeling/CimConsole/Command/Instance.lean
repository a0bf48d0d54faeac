import CimConsole.Command.Class

/-!
Commands about instances. Creating and deleting act in one namespace; everything else
runs in all namespaces that are given.
-/
namespace CimConsole

open Text

namespace InstanceName

/-- A key value without a declared type: a whole number of 64 bits, a truth value in one
of three spellings, or a text. -/
def keyValue (raw : String) : Value :=
  match readInt64? raw.toList with
  | some i => .integer i
  | none =>
    if ["true", "TRUE", "True"].contains raw then .boolean true
    else if ["false", "FALSE", "False"].contains raw then .boolean false
    else .text raw

/-- The path of a class with bindings of its keys. -/
def bound (className : String) (keys : List String) : Except AssignmentError ObjectPath :=
  (readAssignments keys).map fun pairs =>
    pairs.foldl (fun p (name, raw) => p.withKey name (keyValue raw)) (ObjectPath.ofClass className)

/-- The path that a name is without asking. -/
def path (n : InstanceName) : Except Failure ObjectPath :=
  let raw := trim n.text
  if !n.keys.isEmpty then (bound raw n.keys).mapError .invalidAssignment
  else
    match ObjectPath.read raw with
    | .error e => .error (.invalidInstanceName raw e)
    | .ok p => if p.namesClass then .error (.noKeys raw) else .ok p

/-- The path of the instance that is meant, chosen by the user if it is left open. -/
def resolve (n : InstanceName) (s : Server) (space : String) : Run ObjectPath := do
  match dropEnd? ".?" (trim n.text) with
  | none => Run.orFail n.path
  | some className =>
    let paths ← Run.during (.listInstances className) (s.instanceNames space className)
    if paths.isEmpty then throw (.noInstances className space)
    else
      let choice ← Run.ask ("Select an instance of " ++ className) (paths.map ObjectPath.display)
      match choice.bind fun i => paths[i]? with
      | some p => pure p
      | none => throw .instanceNotChosen

end InstanceName

namespace InstanceCommand

/-- The properties to retrieve; none given means all. -/
def propertyList (items : List String) : Option (List String) :=
  match listItems items with
  | [] => none
  | names => some names

/-- Instances, or their paths only. -/
def listed (namesOnly : Bool) (found : List Instance) : Objects :=
  if namesOnly then .paths (found.filterMap Instance.path) else .instances found

/-- How many instances of exactly this class there are. -/
def countOf (s : Server) (space className : String) : Except ServerError Nat := do
  let paths ← s.instanceNames space className
  pure (paths.filter fun p => sameName p.className className).length

/-- The classes that match and have instances, with how many. -/
def countIn (s : Server) (p : Pattern) (space : String) : Except OperationError Objects := do
  let names ← (s.classNames space none true).mapError OperationError.server
  let counts ← ((names.filter p.isMatch).mapM fun n =>
    (countOf s space n).map fun count => (n, count)).mapError OperationError.server
  pure (.counts ((counts.filter fun c => 0 < c.2).mergeSort fun a b =>
    foldCase a.1 ≤ foldCase b.1))

/-- Sets one property of a new instance, read by the type that its class declares. -/
def assign (c : ClassDecl) (x : Instance) (pair : String × String) : Except Failure Instance :=
  match c.property? pair.1 with
  | none => .error (.noSuchProperty pair.1 c.name)
  | some p =>
    let type := if p.referenceClass.isSome then "reference" else p.type
    match Value.readTyped pair.2 type p.isArray with
    | .ok v => .ok (x.set p.name (some v))
    | .error e => .error (.invalidValue p.name e)

/-- The instance of a class that assignments describe. -/
def assigned (c : ClassDecl) (assignments : List String) : Except Failure Instance := do
  let pairs ← (readAssignments assignments).mapError Failure.invalidAssignment
  pairs.foldlM (assign c) { className := c.name }

def firstSpace (spaces : List String) (default : String) : String := spaces.head?.getD default

def run : InstanceCommand → Run Unit
  | .enumerate className properties listing namespaces => do
    let (s, _) ← Run.server
    let spaces ← Run.chooseSpaces s namespaces false
    Run.inNamespaces (← Run.console .mof) "instance" className spaces fun space =>
      let found :=
        if listing.namesOnly then (s.instanceNames space className).map Objects.paths
        else (s.instances space className (propertyList properties)).map Objects.instances
      found.mapError .server |>.map (·.summarized listing.summary)
  | .get name properties namespaces => do
    let (s, _) ← Run.server
    let spaces ← Run.chooseSpaces s namespaces false
    let path ← name.resolve s (firstSpace spaces s.defaultNamespace)
    Run.inNamespaces (← Run.console .mof) "instance" path.display spaces fun space =>
      (s.get space path (propertyList properties)).mapError .server |>.map
        fun x => .instances [x]
  | .create className assignments space => do
    let (s, _) ← Run.server
    let space := space.getD s.defaultNamespace
    let c ← Run.during (.getClass className) (s.classNamed space className {})
    let x ← Run.orFail (assigned c assignments)
    let (path, s) ← Run.during (.createInstance c.name) (s.create space x)
    Run.keep s
    let console ← Run.console .text
    Run.write
      (if console.format.isMachine then console.value path.document else Console.line path.display)
  | .delete name space => do
    let (s, _) ← Run.server
    let space := space.getD s.defaultNamespace
    let path ← name.resolve s space
    let s ← Run.during (.deleteInstance path.display) (s.delete space path)
    Run.keep s
    Run.write ((← Run.console .text).success ("Deleted instance " ++ path.display))
  | .references name filter listing namespaces => do
    let (s, _) ← Run.server
    let spaces ← Run.chooseSpaces s namespaces false
    let path ← name.resolve s (firstSpace spaces "")
    Run.inNamespaces (← Run.console .mof) "instance" path.display spaces fun space =>
      (s.references space path filter).mapError .server |>.map fun found =>
        (listed listing.namesOnly found).summarized listing.summary
  | .associators name filter listing namespaces => do
    let (s, _) ← Run.server
    let spaces ← Run.chooseSpaces s namespaces false
    let path ← name.resolve s (firstSpace spaces "")
    Run.inNamespaces (← Run.console .mof) "instance" path.display spaces fun space =>
      (s.associators space path filter).mapError .server |>.map fun found =>
        (listed listing.namesOnly found).summarized listing.summary
  | .count pattern namespaces => do
    let p ← ClassCommand.readPattern pattern
    let (s, _) ← Run.server
    let spaces ← Run.chooseSpaces s namespaces true
    Run.inNamespaces (← Run.console .table) "instance" pattern spaces (countIn s p)

end InstanceCommand

end CimConsole
