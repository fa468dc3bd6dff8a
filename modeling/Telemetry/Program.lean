import Telemetry.Log
/-!
Programs made of calls. Each call is one step that is answered from outside; between two of them
others may act. What a program reports is part of it.
-/

namespace Telemetry

/-- A program whose calls `c` are answered by values of the type `Reply c`. -/
inductive Program {Call : Type} (Reply : Call → Type) (α : Type) where
  | done (a : α)
  | call (c : Call) (next : Reply c → Program Reply α)
  | log (e : Log.Event) (next : Program Reply α)

namespace Program

variable {Call : Type} {Reply : Call → Type} {α β σ : Type}

def bind : Program Reply α → (α → Program Reply β) → Program Reply β
  | .done a, f => f a
  | .call c next, f => .call c fun r => (next r).bind f
  | .log e next, f => .log e (next.bind f)

instance : Monad (Program Reply) where
  pure := done
  bind := bind

def perform (c : Call) : Program Reply (Reply c) := .call c .done
def report (e : Log.Event) : Program Reply Unit := .log e (.done ())

/-- Runs a program alone on a state from which `answer` answers its calls; `logs` holds the reports
so far, last first. -/
def runFrom (answer : σ → (c : Call) → Reply c × σ) (logs : List Log.Event) (s : σ) :
    Program Reply α → α × σ × List Log.Event
  | .done a => (a, s, logs.reverse)
  | .call c next =>
    let (r, s) := answer s c
    runFrom answer logs s (next r)
  | .log e next => runFrom answer (e :: logs) s next

end Program

end Telemetry
