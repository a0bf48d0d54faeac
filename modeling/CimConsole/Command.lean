import CimConsole.Command.Connection
import CimConsole.Command.Instance
import CimConsole.Command.Namespace
import CimConsole.Command.Qualifier
import CimConsole.Command.Subscription

/-!
Running one command in its context.
-/
namespace CimConsole.Command

/-- Runs a command. The shell is no command of its own but runs the others. -/
def run : Command → Run Unit
  | .classes c => c.run
  | .instances c => c.run
  | .qualifiers c => c.run
  | .namespaces c => c.run
  | .subscriptions manager c => c.run manager
  | .connections c => c.run
  | .shell => pure ()

end CimConsole.Command
