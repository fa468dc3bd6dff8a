/-!
Cutting a list into chunks of one size; the last one may be shorter. No chunk is empty, so the size
zero counts as one.
-/

namespace Telemetry

def chunks {α : Type} (size : Nat) : List α → List (List α)
  | [] => []
  | x :: xs => (x :: xs.take (size - 1)) :: chunks size (xs.drop (size - 1))
termination_by xs => xs.length
decreasing_by simp only [List.length_cons, List.length_drop]; omega

end Telemetry
