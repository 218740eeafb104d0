import AgentSurface.Proofs.Json.Approximation

/-!
# Json — values that can be written

A value whose numbers are whole, and that has no key twice in an object, can be written so that it
is read back: it is `Writable`.  How deep its containers may lie is left to the reader, and
`nesting` counts them.
-/

namespace AgentSurface.Json

mutual

/-- How many lists and objects are around the deepest place of a value. -/
def nesting : Json → Nat
  | .array items => nestingItems items + 1
  | .object members => nestingMembers members + 1
  | .null | .bool _ | .number _ | .string _ => 0

/-- The depth of the deepest element. -/
def nestingItems : List Json → Nat
  | [] => 0
  | v :: rest => max v.nesting (nestingItems rest)

/-- The depth of the deepest member. -/
def nestingMembers : List (String × Json) → Nat
  | [] => 0
  | (_, v) :: rest => max v.nesting (nestingMembers rest)

end

mutual

/-- Numbers are whole, and no object has a key twice. -/
def Writable : Json → Prop
  | .number n => ∃ w, n = .whole w
  | .array items => WritableItems items
  | .object members => (members.map Prod.fst).Nodup ∧ WritableMembers members
  | .null | .bool _ | .string _ => True

/-- All elements can be written. -/
def WritableItems : List Json → Prop
  | [] => True
  | v :: rest => v.Writable ∧ WritableItems rest

/-- All members can be written; that keys are distinct is said of the object. -/
def WritableMembers : List (String × Json) → Prop
  | [] => True
  | (_, v) :: rest => v.Writable ∧ WritableMembers rest

end

mutual

/-- Numbers are whole. -/
def WholeNumbers : Json → Prop
  | .number n => ∃ w, n = .whole w
  | .array items => WholeNumbersItems items
  | .object members => WholeNumbersMembers members
  | .null | .bool _ | .string _ => True

/-- All numbers in the elements are whole. -/
def WholeNumbersItems : List Json → Prop
  | [] => True
  | v :: rest => v.WholeNumbers ∧ WholeNumbersItems rest

/-- All numbers in the members are whole. -/
def WholeNumbersMembers : List (String × Json) → Prop
  | [] => True
  | (_, v) :: rest => v.WholeNumbers ∧ WholeNumbersMembers rest

end

/-- Elements can be written if each of them can. -/
theorem writableItems_iff {items : List Json} :
    WritableItems items ↔ ∀ v ∈ items, v.Writable := by
  induction items with
  | nil => simp [WritableItems]
  | cons v rest ih => simp [WritableItems, ih]

/-- Elements lie within a depth if each of them does. -/
theorem nestingItems_le_iff {items : List Json} {n : Nat} :
    nestingItems items ≤ n ↔ ∀ v ∈ items, v.nesting ≤ n := by
  induction items with
  | nil => simp [nestingItems]
  | cons v rest ih => rw [nestingItems, Nat.max_le, ih, List.forall_mem_cons]

mutual

/-- No key stands twice in an object that can be written. -/
theorem Writable.distinctKeys : ∀ v : Json, v.Writable → DistinctKeys v
  | .null, _ | .bool _, _ | .number _, _ | .string _, _ => by simp only [DistinctKeys]
  | .array items, h => by
    simp only [DistinctKeys]
    exact WritableItems.distinctKeys items h
  | .object members, h => by
    simp only [DistinctKeys]
    exact ⟨h.1, WritableMembers.distinctKeys members h.2⟩

theorem WritableItems.distinctKeys : ∀ items : List Json, WritableItems items →
    DistinctKeysItems items
  | [], _ => by simp only [DistinctKeysItems]
  | v :: rest, h => by
    simp only [DistinctKeysItems]
    exact ⟨Writable.distinctKeys v h.1, WritableItems.distinctKeys rest h.2⟩

theorem WritableMembers.distinctKeys : ∀ members : List (String × Json), WritableMembers members →
    DistinctKeysFields members
  | [], _ => by simp only [DistinctKeysFields]
  | (_, v) :: rest, h => by
    simp only [DistinctKeysFields]
    exact ⟨Writable.distinctKeys v h.1, WritableMembers.distinctKeys rest h.2⟩

end

mutual

/-- A value with whole numbers can be written if it has no key twice in an object. -/
theorem writable_of_distinctKeys : ∀ v : Json, DistinctKeys v → v.WholeNumbers → v.Writable
  | .null, _, _ | .bool _, _, _ | .string _, _, _ => trivial
  | .number _, _, h => h
  | .array items, hkeys, h => by
    simp only [DistinctKeys] at hkeys
    exact writableItems_of_distinctKeys items hkeys h
  | .object members, hkeys, h => by
    simp only [DistinctKeys] at hkeys
    exact ⟨hkeys.1, writableMembers_of_distinctKeys members hkeys.2 h⟩

theorem writableItems_of_distinctKeys : ∀ items : List Json, DistinctKeysItems items →
    WholeNumbersItems items → WritableItems items
  | [], _, _ => trivial
  | v :: rest, hkeys, h => by
    simp only [DistinctKeysItems] at hkeys
    exact ⟨writable_of_distinctKeys v hkeys.1 h.1, writableItems_of_distinctKeys rest hkeys.2 h.2⟩

theorem writableMembers_of_distinctKeys : ∀ members : List (String × Json),
    DistinctKeysFields members → WholeNumbersMembers members → WritableMembers members
  | [], _, _ => trivial
  | (_, v) :: rest, hkeys, h => by
    simp only [DistinctKeysFields] at hkeys
    exact ⟨writable_of_distinctKeys v hkeys.1 h.1, writableMembers_of_distinctKeys rest hkeys.2 h.2⟩

end

end AgentSurface.Json
