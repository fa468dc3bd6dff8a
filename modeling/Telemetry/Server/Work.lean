import Telemetry.Program
import Telemetry.Storage.Store
/-!
What a server does with its storage: a program of storage calls.
-/

namespace Telemetry.Server

abbrev Work : Type → Type := Program Call.Reply

namespace Work

def perform (c : Call) : Work c.Reply := Program.perform c
def report (e : Log.Event) : Work Unit := Program.report e

def run {α : Type} (w : Work α) (s : Store) : α × Store × List Log.Event :=
  w.runFrom Store.perform [] s

end Work

end Telemetry.Server
