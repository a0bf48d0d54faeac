import CimConsole.Arguments.Reader
import CimConsole.Command.Basic
import CimConsole.Options

/-!
The command line of this program: its grammar, and the command and options that a line
stands for.
-/
namespace CimConsole.Arguments

open Item

/-! The items that several commands have. -/

def namespacesItem : Item := repeatable (valued "namespace" "namespace" (some 'n') [])

def namespaceItem : Item := valued "namespace" "namespace" (some 'n') []

def namesOnlyItem : Item := flag "names-only" "names-only" none ["no"]

def summaryItem : Item := flag "summary" "summary" none []

def selectItem : Item := flag "select" "select" none []

def resultClassItem : Item := valued "result-class" "result-class" none ["rc"]

def assocClassItem : Item := valued "assoc-class" "assoc-class" none ["ac"]

def roleItem : Item := valued "role" "role" none []

def resultRoleItem : Item := valued "result-role" "result-role" none ["rr"]

def propertyListItem : Item := repeatable (valued "property-list" "property-list" none ["pl"])

def keyItem : Item := repeatable (valued "key" "key" (some 'k') [])

def retrievalItems : List Item :=
  [flag "local-only" "local-only" (some 'l') ["lo"], flag "no-qualifiers" "no-qualifiers" none ["nq"],
    flag "include-classorigin" "include-classorigin" (some 'c') ["ico"]]

def flagNames : List String := ["association", "indication", "experimental", "deprecated"]

def filterItems : List Item :=
  flagNames.flatMap (fun name => [flag name name none [], flag ("no-" ++ name) ("no-" ++ name) none []])
    ++ [valued "since" "since" none [], valued "schema" "schema" none [],
      valued "subclass-of" "subclass-of" none [], flag "leaf-classes" "leaf-classes" none []]

def ownedItems : List Item := [flag "owned" "owned" none [], flag "permanent" "permanent" none []]

def ownedListingItems : List Item :=
  [{ valued "type" "type" none [] with accepts := .oneOf ["owned", "permanent", "all"] },
    namesOnlyItem, summaryItem]

/-! The commands. -/

def classGrammar : Grammar where
  name := "class"
  commands := [
    { name := "enumerate"
      words := [word "classname"]
      options := [flag "deep-inheritance" "deep-inheritance" none ["di"], namesOnlyItem, summaryItem,
        namespacesItem] ++ retrievalItems ++ filterItems
      conflicts := flagNames.map fun name => (name, "no-" ++ name) },
    { name := "get", words := [needed (word "classname")], options := retrievalItems ++ [namespacesItem] },
    { name := "find", words := [needed (word "pattern")], options := [namespacesItem] },
    { name := "references"
      words := [needed (word "classname")]
      options := [resultClassItem, roleItem, namesOnlyItem, summaryItem, namespacesItem] },
    { name := "associators"
      words := [needed (word "classname")]
      options := [assocClassItem, resultClassItem, roleItem, resultRoleItem, namesOnlyItem,
        summaryItem, namespacesItem] },
    { name := "tree", words := [word "classname"], options := [namespaceItem] }]

def instanceGrammar : Grammar where
  name := "instance"
  commands := [
    { name := "enumerate"
      words := [needed (word "classname")]
      options := [namesOnlyItem, propertyListItem, summaryItem, namespacesItem] },
    { name := "get"
      words := [needed (word "instancename")]
      options := [keyItem, propertyListItem, namespacesItem] },
    { name := "create"
      words := [needed (word "classname")]
      options := [repeatable (valued "property" "property" (some 'p') []), namespaceItem] },
    { name := "delete", words := [needed (word "instancename")], options := [keyItem, namespaceItem] },
    { name := "references"
      words := [needed (word "instancename")]
      options := [keyItem, resultClassItem, roleItem, namesOnlyItem, summaryItem, namespacesItem] },
    { name := "associators"
      words := [needed (word "instancename")]
      options := [keyItem, assocClassItem, resultClassItem, roleItem, resultRoleItem, namesOnlyItem,
        summaryItem, namespacesItem] },
    { name := "count", words := [word "pattern"], options := [namespacesItem] }]

def qualifierGrammar : Grammar where
  name := "qualifier"
  commands := [
    { name := "enumerate", options := [summaryItem, namespacesItem] },
    { name := "get", words := [needed (word "qualifiername")], options := [namespacesItem] }]

def namespaceGrammar : Grammar where
  name := "namespace"
  commands := [{ name := "list", options := [summaryItem] }, { name := "interop" }]

def ownedConflict : List (String × String) := [("owned", "permanent")]

def pairWords : List Item := [needed (word "destination-identity"), needed (word "filter-identity")]

def subscriptionGrammar : Grammar where
  name := "subscription"
  options := [everywhere (valued "submgr-id" "submgr-id" none [])]
  commands := [
    { name := "add-destination"
      words := [needed (word "identity")]
      options := needed (valued "listener-url" "listener-url" (some 'l') []) :: ownedItems
      conflicts := ownedConflict },
    { name := "add-filter"
      words := [needed (word "identity")]
      options := [needed (valued "query" "query" none []),
        valued "query-language" "query-language" none [],
        repeatable (valued "source-namespaces" "source-namespaces" none [])] ++ ownedItems
      conflicts := ownedConflict },
    { name := "add-subscription"
      words := pairWords
      options := selectItem :: ownedItems
      conflicts := ownedConflict },
    { name := "list", options := ownedListingItems },
    { name := "list-destinations", options := ownedListingItems },
    { name := "list-filters", options := ownedListingItems },
    { name := "list-subscriptions", options := ownedListingItems },
    { name := "remove-destination", words := [needed (word "identity")], options := [selectItem] },
    { name := "remove-filter", words := [needed (word "identity")], options := [selectItem] },
    { name := "remove-subscription"
      words := pairWords
      options := [flag "remove-associated-instances" "remove-associated-instances" none [], selectItem] },
    { name := "remove-server" }]

def connectionGrammar : Grammar where
  name := "connection"
  commands := [
    { name := "list" },
    { name := "show", words := [word "connection"] },
    { name := "save"
      words := [needed (word "connection")]
      options := [flag "set-default" "set-default" none []] },
    { name := "delete", words := [word "connection"] },
    { name := "select", words := [word "connection"] },
    { name := "test" }]

def commandGrammars : List Grammar :=
  [classGrammar, instanceGrammar, qualifierGrammar, namespaceGrammar, subscriptionGrammar,
    connectionGrammar, { name := "repl" }]

/-- The options that stand at any command. -/
def sharedItems : List Item :=
  [{ flag "verbose" "verbose" (some 'v') [] with arity := .count },
    flag "quiet" "quiet" (some 'q') [],
    valued "server" "server" (some 's') [],
    repeatable (valued "mock-server" "mock-server" (some 'm') []),
    valued "name" "name" none [],
    valued "default-namespace" "default-namespace" (some 'd') [],
    valued "user" "user" (some 'u') [],
    { valued "timeout" "timeout" none [] with accepts := .natural (Nat.pow 2 32 - 1) },
    flag "no-verify" "no-verify" none [],
    { valued "output-format" "output-format" (some 'o') [] with
      accepts := .oneOf (OutputFormat.all.map OutputFormat.name) },
    { valued "connections-file" "connections-file" none [] with accepts := .nonempty }].map everywhere

/-- A grammar whose commands at all levels tell the version. -/
def versioned (g : Grammar) : Grammar :=
  { g with
    hasVersion := true
    commands := g.commands.map fun c =>
      { c with hasVersion := true, commands := c.commands.map fun d => { d with hasVersion := true } } }

/-- The line that starts the program. -/
def programGrammar : Grammar :=
  versioned { name := "wbemcli", options := sharedItems, hasHelpWord := false, commands := commandGrammars }

/-- A line of the shell. -/
def lineGrammar : Grammar := { name := "wbemcli", commands := commandGrammars }

/-! From what was found to commands. -/

variable (levels : List Level)

def text (id : String) : String := (value? levels id).getD ""

def listing : Listing := ⟨has levels "names-only", has levels "summary"⟩

def retrieval : Retrieval where
  localOnly := has levels "local-only"
  noQualifiers := has levels "no-qualifiers"
  origins := has levels "include-classorigin"

/-- What a flag and its opposite ask for. -/
def wanted (name : String) : Option Bool :=
  if has levels name then some true
  else if has levels ("no-" ++ name) then some false
  else none

def filterOptions : FilterOptions where
  association := wanted levels "association"
  indication := wanted levels "indication"
  experimental := wanted levels "experimental"
  deprecated := wanted levels "deprecated"
  since := value? levels "since"
  schema := value? levels "schema"
  subclassOf := value? levels "subclass-of"
  leafClasses := has levels "leaf-classes"

def referenceFilter : AssociationFilter where
  resultClass := value? levels "result-class"
  role := value? levels "role"

def associatorFilter : AssociationFilter where
  associationClass := value? levels "assoc-class"
  resultClass := value? levels "result-class"
  role := value? levels "role"
  resultRole := value? levels "result-role"

def namespaces : List String := values levels "namespace"

def classCommand? (name : String) : Option ClassCommand :=
  let className := text levels "classname"
  match name with
  | "enumerate" => some (.enumerate (value? levels "classname") (has levels "deep-inheritance")
      (retrieval levels) (listing levels) (namespaces levels) (filterOptions levels))
  | "get" => some (.get className (retrieval levels) (namespaces levels))
  | "find" => some (.find (text levels "pattern") (namespaces levels))
  | "references" =>
    some (.references className (referenceFilter levels) (listing levels) (namespaces levels))
  | "associators" =>
    some (.associators className (associatorFilter levels) (listing levels) (namespaces levels))
  | "tree" => some (.tree (value? levels "classname") (value? levels "namespace"))
  | _ => none

def instanceCommand? (name : String) : Option InstanceCommand :=
  let className := text levels "classname"
  let instanceName : InstanceName := ⟨text levels "instancename", values levels "key"⟩
  let properties := values levels "property-list"
  match name with
  | "enumerate" => some (.enumerate className properties (listing levels) (namespaces levels))
  | "get" => some (.get instanceName properties (namespaces levels))
  | "create" => some (.create className (values levels "property") (value? levels "namespace"))
  | "delete" => some (.delete instanceName (value? levels "namespace"))
  | "references" =>
    some (.references instanceName (referenceFilter levels) (listing levels) (namespaces levels))
  | "associators" =>
    some (.associators instanceName (associatorFilter levels) (listing levels) (namespaces levels))
  | "count" => some (.count ((value? levels "pattern").getD "*") (namespaces levels))
  | _ => none

def qualifierCommand? (name : String) : Option QualifierCommand :=
  match name with
  | "enumerate" => some (.enumerate (has levels "summary") (namespaces levels))
  | "get" => some (.get (text levels "qualifiername") (namespaces levels))
  | _ => none

def namespaceCommand? (name : String) : Option NamespaceCommand :=
  match name with
  | "list" => some (.list (has levels "summary"))
  | "interop" => some .interop
  | _ => none

def ownedListing : OwnedListing where
  ownership := ((value? levels "type").bind Ownership.ofText?).getD .all
  listing := listing levels

def subscriptionCommand? (name : String) : Option SubscriptionCommand :=
  let identity := text levels "identity"
  let destination := text levels "destination-identity"
  let filter := text levels "filter-identity"
  let owned := !has levels "permanent"
  let select := has levels "select"
  match name with
  | "add-destination" => some (.addDestination identity (text levels "listener-url") owned)
  | "add-filter" => some (.addFilter identity (text levels "query")
      ((value? levels "query-language").getD "WQL") (values levels "source-namespaces") owned)
  | "add-subscription" => some (.addSubscription destination filter owned select)
  | "list" => some (.list (ownedListing levels))
  | "list-destinations" => some (.listEndpoints .destination (ownedListing levels))
  | "list-filters" => some (.listEndpoints .filter (ownedListing levels))
  | "list-subscriptions" => some (.listSubscriptions (ownedListing levels))
  | "remove-destination" => some (.removeEndpoint .destination identity select)
  | "remove-filter" => some (.removeEndpoint .filter identity select)
  | "remove-subscription" => some (.removeSubscription destination filter
      (has levels "remove-associated-instances") select)
  | "remove-server" => some .removeServer
  | _ => none

def connectionCommand? (name : String) : Option ConnectionCommand :=
  let connection := value? levels "connection"
  match name with
  | "list" => some .list
  | "show" => some (.display connection)
  | "save" => some (.save (connection.getD "") (has levels "set-default"))
  | "delete" => some (.delete connection)
  | "select" => some (.select connection)
  | "test" => some .test
  | _ => none

/-- The command of the names that were found behind the program's. -/
def command? : Option Command :=
  match (levels.drop 1).map Level.command with
  | ["class", name] => (classCommand? levels name).map .classes
  | ["instance", name] => (instanceCommand? levels name).map .instances
  | ["qualifier", name] => (qualifierCommand? levels name).map .qualifiers
  | ["namespace", name] => (namespaceCommand? levels name).map .namespaces
  | ["subscription", name] =>
    (subscriptionCommand? levels name).map
      (.subscriptions ((value? levels "submgr-id").getD defaultManagerId))
  | ["connection", name] => (connectionCommand? levels name).map .connections
  | ["repl"] => some .shell
  | _ => none

def options : Options where
  server := value? levels "server"
  mockServer := values levels "mock-server"
  name := value? levels "name"
  defaultNamespace := value? levels "default-namespace"
  user := value? levels "user"
  timeout := ((value? levels "timeout").bind (Text.readNatural? (Nat.pow 2 32 - 1))).map UInt32.ofNat
  noVerify := has levels "no-verify"
  outputFormat := (value? levels "output-format").bind OutputFormat.ofName?
  connectionsFile := value? levels "connections-file"

end CimConsole.Arguments
