import AgentSurface.Session.Snapshot
import AgentSurface.Text.Lowercase
import AgentSurface.Text.Search

/-!
# Session — listing

A filter says which snapshots a listing shows, and how many.  A listing begins with the snapshot
that was changed last; of those that were changed at the same time, the one whose identifier comes
first.
-/

namespace AgentSurface.Session

structure Filter where
  /-- The owner. -/
  userId : Option String := none
  /-- A part of the title, in any case. -/
  titleContains : Option String := none
  /-- How many at most. -/
  limit : Option Nat := none
deriving DecidableEq, Repr

namespace Filter

/-- The owner is the one that is asked for. -/
def matchesUser (f : Filter) (s : Snapshot) : Bool :=
  match f.userId with
  | some user => s.userId == some user
  | none => true

/-- The title has the part that is asked for, both in lower case.  No title counts as an empty
one. -/
def matchesTitle (f : Filter) (s : Snapshot) : Bool :=
  match f.titleContains with
  | some part => Text.occursIn (Text.lower part.toList) (Text.lower (s.title.getD "").toList)
  | none => true

def accepts (f : Filter) (s : Snapshot) : Bool := f.matchesUser s && f.matchesTitle s

/-- The order of a listing. -/
def comesFirst (a b : Snapshot) : Bool :=
  b.updatedAt.before a.updatedAt || (b.updatedAt == a.updatedAt && decide (a.id ≤ b.id))

/-- The listing of snapshots. -/
def apply (f : Filter) (snapshots : List Snapshot) : List Snapshot :=
  let sorted := (snapshots.filter f.accepts).mergeSort comesFirst
  match f.limit with
  | some n => sorted.take n
  | none => sorted

end Filter
end AgentSurface.Session
