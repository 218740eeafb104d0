import AgentSurface.Session.Store

/-!
# Session — the store in memory

It keeps the snapshots in the order in which their identifiers first came.

* `get?_put`: what is put under an identifier is found there, and nothing else changes.
* `get?_drop`: what is dropped is gone, and nothing else changes.
-/

namespace AgentSurface.Session

structure Memory where
  /-- The snapshots, each under its own identifier. -/
  snapshots : List Snapshot := []

namespace Memory

def get? (m : Memory) (id : String) : Option Snapshot := m.snapshots.find? (·.id == id)

def size (m : Memory) : Nat := m.snapshots.length

def isEmpty (m : Memory) : Bool := m.snapshots.isEmpty

/-- Put a snapshot in the place of the one with its identifier, or last. -/
def putInto (s : Snapshot) : List Snapshot → List Snapshot
  | [] => [s]
  | old :: rest => if old.id = s.id then s :: rest else old :: putInto s rest

def put (m : Memory) (s : Snapshot) : Memory := ⟨putInto s m.snapshots⟩

/-- Drop the snapshot under an identifier. -/
def drop (m : Memory) (id : String) : Memory := ⟨m.snapshots.filter (·.id != id)⟩

instance : Store Memory where
  save m s := (.ok s.id, m.put s)
  get m id := .ok (m.get? id)
  list m filter := .ok (filter.apply m.snapshots)
  delete m id := (.ok (m.get? id).isSome, m.drop id)

/-! ### What is found -/

theorem find?_putInto (s : Snapshot) (snapshots : List Snapshot) (id : String) :
    (putInto s snapshots).find? (·.id == id) =
      if s.id = id then some s else snapshots.find? (·.id == id) := by
  induction snapshots with
  | nil => by_cases h : s.id = id <;> simp [putInto, h]
  | cons old rest ih =>
    rw [putInto]
    by_cases hs : old.id = s.id
    · by_cases h : s.id = id
      · simp [hs, h]
      · have hb : (s.id == id) = false := by simp [h]
        simp [hs, h, hb]
    · rw [if_neg hs, List.find?_cons, List.find?_cons, ih]
      by_cases h : s.id = id
      · have hb : (old.id == id) = false := by simpa [← h] using hs
        simp [h, hb]
      · simp [h]

theorem get?_put (m : Memory) (s : Snapshot) (id : String) :
    (m.put s).get? id = if s.id = id then some s else m.get? id :=
  find?_putInto s m.snapshots id

theorem get?_drop (m : Memory) (id other : String) :
    (m.drop id).get? other = if id = other then none else m.get? other := by
  simp only [get?, drop, List.find?_filter]
  by_cases h : id = other
  · subst h
    simp
  · rw [if_neg h]
    congr 1
    funext s
    by_cases ho : s.id = other
    · have : s.id ≠ id := fun e => h (e.symm.trans ho)
      simp [ho, Ne.symm h]
    · simp [ho]

end Memory
end AgentSurface.Session
