import CimConsole.Document.Json
import CimConsole.Document.Yaml
import CimConsole.Model.Mof
import CimConsole.Server.Repository
import CimConsole.Fanout.Session
import CimConsole.Fanout.Namespaces
import CimConsole.Filter
import CimConsole.Subscription.Resolver
import CimConsole.Connections
import CimConsole.Command
import CimConsole.Shell
import CimConsole.Program
import CimConsole.Main
import CimConsole.Proofs.Fanout.Run
import CimConsole.Proofs.Fanout.Turn
import CimConsole.Proofs.Fanout.TurnLaws
import CimConsole.Proofs.Fanout.Protocol
import CimConsole.Proofs.Filter.Descent
import CimConsole.Proofs.Model.Equality
import CimConsole.Proofs.Model.Spelling
import CimConsole.Proofs.Text.Cut
import CimConsole.Proofs.Text.Whole
import CimConsole.Proofs.Answer
import CimConsole.Proofs.Model.PathReader
import CimConsole.Proofs.Model.PathText
import CimConsole.Proofs.Server.Store
import CimConsole.Proofs.Server.Keys
import CimConsole.Proofs.Server.Lineage
import CimConsole.Proofs.Server.Binding
import CimConsole.Proofs.Server.Spelling
import CimConsole.Proofs.Subscription.Links
import CimConsole.Proofs.Subscription.Integrity
import CimConsole.Proofs.Filter.Selection
import CimConsole.Proofs.Subscription.Names
import CimConsole.Proofs.Model.KeyNames
import CimConsole.Proofs.Subscription.Ownership
import CimConsole.Proofs.Subscription.Sweep
import CimConsole.Proofs.Subscription.Removal
import CimConsole.Proofs.Server.Hierarchy
import CimConsole.Proofs.Filter.Retrieval
import CimConsole.Proofs.Filter.Agreement
import CimConsole.Proofs.Server.Reachable
import CimConsole.Proofs.Subscription.Closed
import CimConsole.Proofs.Subscription.Atomic
import CimConsole.Proofs.Subscription.Additions
import CimConsole.Proofs.Subscription.Listing
import CimConsole.Proofs.Subscription.Permanent
import CimConsole.Proofs.Subscription.Lifecycle
import CimConsole.Proofs.Command.PrintedPaths
import CimConsole.Proofs.Command.Rules
import CimConsole.Proofs.Command.Failures
import CimConsole.Proofs.Shell
import CimConsole.Proofs.Model.Symmetry
import CimConsole.Proofs.Server.Inheritance
import CimConsole.Proofs.Server.Enumeration
import CimConsole.Proofs.Server.Associations
import CimConsole.Proofs.Options
import CimConsole.Proofs.Server.Ascent
import CimConsole.Proofs.Server.KeyInheritance
import CimConsole.Proofs.Model.Folding
import CimConsole.Proofs.Output.Forest
import CimConsole.Proofs.Command.Tree
import CimConsole.Proofs.Command.Counting
import CimConsole.Proofs.Subscription.Owners
import CimConsole.Proofs.Tally
import CimConsole.Proofs.Subscription.References
import CimConsole.Proofs.Command.KeyTexts
import CimConsole.Proofs.Command.Assignments
import CimConsole.Proofs.Command.KeyValues
import CimConsole.Proofs.Filter.Associations
import CimConsole.Proofs.NameTable
import CimConsole.Proofs.Text.Lists
import CimConsole.Proofs.Files
import CimConsole.Proofs.Document.Equality
import CimConsole.Proofs.Document.Meaning
import CimConsole.Proofs.Connections
import CimConsole.Proofs.Model.Setting
import CimConsole.Proofs.Input.TypedValue
import CimConsole.Proofs.Output.Widths
import CimConsole.Proofs.Output.Columns
import CimConsole.Proofs.Server.Walk
import CimConsole.Proofs.Text.Lines
import CimConsole.Proofs.Model.Literals
import CimConsole.Proofs.Document.JsonText
import CimConsole.Proofs.Model.Respelling
import CimConsole.Proofs.Model.Documents
