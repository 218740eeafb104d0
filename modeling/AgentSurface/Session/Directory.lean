/-!
# Session — a directory

A directory as a value: what stands in it under which name.  An operation fails because nothing is
there, or because what is there does not allow it.

* `find?_put`, `find?_erase`: what an operation does to one name, it does to no other.
-/

namespace AgentSurface.Session

namespace Directory

/-- What stands under a name. -/
inductive Item where
  | file (text : String)
  | folder
deriving DecidableEq, Repr

/-- Why an operation fails. -/
inductive Obstacle where
  /-- Nothing is there. -/
  | absent
  | refused
deriving DecidableEq, Repr

/-- Names, and what stands under them. -/
abbrev Items := List (String × Item)

def Items.find? (items : Items) (name : String) : Option Item :=
  (List.find? (·.1 == name) items).map (·.2)

/-- Take away what stands under a name. -/
def Items.erase (items : Items) (name : String) : Items := items.filter (·.1 != name)

/-- Put an item under a name, in place of what stands there. -/
def Items.put (items : Items) (name : String) (item : Item) : Items :=
  (name, item) :: items.erase name

theorem Items.find?_erase (items : Items) (name other : String) :
    (items.erase name).find? other = if name = other then none else items.find? other := by
  simp only [find?, erase, List.find?_filter]
  by_cases h : name = other
  · subst h
    simp
  · rw [if_neg h]
    congr 2
    funext entry
    by_cases ho : entry.1 = other
    · have : entry.1 ≠ name := fun e => h (e.symm.trans ho)
      simp [ho, Ne.symm h]
    · simp [ho]

theorem Items.find?_put (items : Items) (name other : String) (item : Item) :
    (items.put name item).find? other = if name = other then some item else items.find? other := by
  by_cases h : name = other
  · subst h
    simp [put, find?]
  · have hb : (name == other) = false := by simp [h]
    have he := Items.find?_erase items name other
    rw [if_neg h] at he ⊢
    rw [← he]
    simp [put, find?, hb]

end Directory

/-- A place in a file system that should be a directory. -/
inductive Directory where
  | missing
  /-- A file stands there. -/
  | blocked
  | holding (items : Directory.Items)
deriving DecidableEq, Repr

namespace Directory

/-- Make the directory, if it is missing. -/
def create : Directory → Except Obstacle Items
  | .missing => .ok []
  | .blocked => .error .refused
  | .holding items => .ok items

/-- What stands in the directory. -/
def items : Directory → Except Obstacle Items
  | .missing => .error .absent
  | .blocked => .error .refused
  | .holding items => .ok items

/-- A name may have 255 bytes. -/
def isName (name : String) : Bool := name.utf8ByteSize ≤ 255

/-- What stands under a name, if it can be one. -/
def Items.lookUp (items : Items) (name : String) : Except Obstacle (Option Item) :=
  if isName name then .ok (items.find? name) else .error .refused

/-- The text of a file. -/
def Items.read (items : Items) (name : String) : Except Obstacle String := do
  match ← items.lookUp name with
  | none => .error .absent
  | some .folder => .error .refused
  | some (.file text) => .ok text

/-- Write a file anew. -/
def Items.write (items : Items) (name text : String) : Except Obstacle Items := do
  match ← items.lookUp name with
  | some .folder => .error .refused
  | _ => .ok (items.put name (.file text))

/-- Give a file another name; a file of that name goes. -/
def Items.move (items : Items) (source target : String) : Except Obstacle Items := do
  match ← items.lookUp source, ← items.lookUp target with
  | none, _ => .error .absent
  | some _, some .folder => .error .refused
  | some item, _ => .ok ((items.erase source).put target item)

/-- Take a file away. -/
def Items.remove (items : Items) (name : String) : Except Obstacle Items := do
  match ← items.lookUp name with
  | none => .error .absent
  | some .folder => .error .refused
  | some (.file _) => .ok (items.erase name)

/-- The ending of a name behind its last point, unless the name begins with that point. -/
def extension? (name : String) : Option String :=
  let reversed := name.toList.reverse
  let ending := reversed.takeWhile (· != '.')
  match reversed.drop ending.length with
  | _ :: _ :: _ => some (String.ofList ending.reverse)
  | _ => none

end Directory
end AgentSurface.Session
