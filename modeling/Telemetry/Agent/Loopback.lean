import Telemetry.Agent.Work
import Telemetry.Server.Application
/-!
An agent and a server without a network between them: every post is handled at once, and its answer
arrives.
-/

namespace Telemetry.Agent

def Link.toServer (key : Option String) : Link Store := fun _ request store =>
  let (response, store, _) := (Server.Application.handle key request).run store
  (some response, store)

end Telemetry.Agent
