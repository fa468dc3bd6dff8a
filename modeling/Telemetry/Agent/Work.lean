import Telemetry.Agent.Samples
import Telemetry.Backoff
import Telemetry.Http.Message
import Telemetry.Program
/-!
What an agent does to report its samples, as a program: it reads the samples and takes reported polls
off them, it posts, and it waits. Polls, other reports and the server act in between.
-/

namespace Telemetry.Agent

inductive Action where
  | read
  | flush (reported : Count)
  | post (url : String) (request : Http.Request)
  | pause (delay : Duration)

/-- A post is answered by nothing if it or its answer is lost. Where there is no reply at all, the time
that was set for the batch has run out. -/
abbrev Action.Reply : Action → Type
  | .read => Samples
  | .flush _ => Unit
  | .post _ _ => Option (Option Http.Response)
  | .pause _ => Option Unit

abbrev Work : Type → Type := Program Action.Reply

/-- Work that is given up where its time runs out. -/
abbrev Timed : Type → Type := OptionT Work

/-- What becomes of a request that is posted to a URL, in a network with a state. -/
abbrev Link (σ : Type) := String → Http.Request → σ → Option Http.Response × σ

def Link.down {σ : Type} : Link σ := fun _ _ s => (none, s)

namespace Work

def perform (a : Action) : Work a.Reply := Program.perform a
def report (e : Log.Event) : Work Unit := Program.report e

def answer {σ : Type} (link : Link σ) : Samples × σ → (a : Action) → a.Reply × (Samples × σ)
  | (samples, net), .read => (samples, samples, net)
  | (samples, net), .flush reported => ((), samples.flush reported, net)
  | (samples, net), .post url request =>
    let (response, net) := link url request net
    (some response, samples, net)
  | s, .pause _ => (some (), s)

/-- Runs the work with nobody else acting and with time enough. -/
def run {σ α : Type} (w : Work α) (link : Link σ) (samples : Samples) (net : σ) :
    α × (Samples × σ) × List Log.Event :=
  w.runFrom (answer link) [] (samples, net)

end Work

end Telemetry.Agent
