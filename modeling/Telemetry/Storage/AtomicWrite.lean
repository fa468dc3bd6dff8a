import Telemetry.Storage.FileTree
/-!
Writing a file so that readers see the old content or the new one, never a part.

The bytes go to a temporary file beside the target, which is then renamed over it. Every step can
fail; after a failure the temporary file is removed.
-/

namespace Telemetry.AtomicWrite

open Storage

inductive Step where
  | parents
  | create
  | write
  | sync
  | rename
  deriving DecidableEq, Repr

/-- The tree after each step in turn, and what the writer answers. -/
structure Outcome where
  trace : List FileTree
  result : Except Error Unit

def Outcome.final (o : Outcome) (t : FileTree) : FileTree := o.trace.getLastD t

/-- Gives up in the tree `t`, the last of the trace, and clears the temporary file away. -/
def abandon (path : String) (temporary : Path) (trace : List FileTree) (t : FileTree) : Outcome :=
  ⟨trace ++ [t.removeFile temporary], .error (.persistence path)⟩

/-- Writes `bytes`, the step `fault` failing if there is one; a write that fails leaves the first
`written` bytes behind. -/
def attempt (fault : Option Step) (written : Nat) (t : FileTree) (path : String) (bytes : Bytes) :
    Outcome :=
  if bytes = [] then ⟨[], .error (.emptySnapshot path)⟩
  else
    let target := Path.ofText t.base path
    let temporary := target.temporary
    let (t1, made) := if fault = some .parents then (t, false) else t.makeParents target
    if !made then ⟨[t1], .error (.persistence path)⟩
    else if fault = some .create then abandon path temporary [t1] t1
    else
      match t1.write? temporary [] with
      | none => abandon path temporary [t1] t1
      | some t2 =>
        if fault = some .write then
          let t3 := (t2.write? temporary (bytes.take written)).getD t2
          abandon path temporary [t1, t2, t3] t3
        else
          let t3 := (t2.write? temporary bytes).getD t2
          if fault = some .sync || fault = some .rename then abandon path temporary [t1, t2, t3] t3
          else
            match t3.rename? temporary target with
            | none => abandon path temporary [t1, t2, t3] t3
            | some t4 => ⟨[t1, t2, t3, t4], .ok ()⟩

/-- Writes the file; only the tree itself can make a step fail. -/
def run (t : FileTree) (path : String) (bytes : Bytes) : Except Error Unit × FileTree :=
  let o := attempt none 0 t path bytes
  (o.result, o.final t)

end Telemetry.AtomicWrite
