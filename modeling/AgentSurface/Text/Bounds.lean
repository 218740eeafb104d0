/-!
# Text — properties of code points as tables

A table lists in turn where a property begins to hold and where it ceases to hold, in growing order.
-/

namespace AgentSurface.Text

/-- The property of a table holds at `n`. -/
def within (n : Nat) : List Nat → Bool
  | start :: stop :: rest => if n < start then false else n < stop || within n rest
  | [start] => start ≤ n
  | [] => false

end AgentSurface.Text
