import AgentSurface.Proofs.Json.Fields

/-!
# Json — values that are known in part

`Approximates w v` says that `w` shows nothing that `v` does not have: `null` stands for anything, a
number for any number, a string for every string that it begins, a list or an object for every one
whose first elements or members it approximates, in order.

* `Approximates.refl`: a value approximates itself.
* `DistinctKeys.settled`: a value that has no key twice in an object is settled.
* `Approximates.distinctKeys`: what approximates such a value is one.
-/

namespace AgentSurface.Json

/-! ### Approximation -/

mutual

/-- The first value is what is known of the second one. -/
def Approximates : Json → Json → Prop
  | .null, _ => True
  | .bool a, .bool b => a = b
  | .number _, .number _ => True
  | .string s, .string t => s.toList <+: t.toList
  | .array xs, .array ys => ItemsApproximate xs ys
  | .object xs, .object ys => FieldsApproximate xs ys
  | _, _ => False

/-- The elements are known of the first ones of a list. -/
def ItemsApproximate : List Json → List Json → Prop
  | [], _ => True
  | x :: xs, y :: ys => Approximates x y ∧ ItemsApproximate xs ys
  | _ :: _, [] => False

/-- The members are known of the first ones of an object, under the same keys. -/
def FieldsApproximate : List (String × Json) → List (String × Json) → Prop
  | [], _ => True
  | (k, x) :: xs, (l, y) :: ys => k = l ∧ Approximates x y ∧ FieldsApproximate xs ys
  | _ :: _, [] => False

end

mutual

/-- A value approximates itself, so a preview may stand still. -/
theorem Approximates.refl : ∀ v : Json, Approximates v v
  | .null | .bool _ | .number _ => by simp only [Approximates]
  | .string _ => by simp only [Approximates]; exact List.prefix_rfl
  | .array items => by simp only [Approximates]; exact ItemsApproximate.refl items
  | .object fields => by simp only [Approximates]; exact FieldsApproximate.refl fields

theorem ItemsApproximate.refl : ∀ items : List Json, ItemsApproximate items items
  | [] => by simp only [ItemsApproximate]
  | v :: rest => by
    simp only [ItemsApproximate]
    exact ⟨Approximates.refl v, ItemsApproximate.refl rest⟩

theorem FieldsApproximate.refl : ∀ fields : List (String × Json), FieldsApproximate fields fields
  | [] => by simp only [FieldsApproximate]
  | (_, v) :: rest => by
    simp only [FieldsApproximate, true_and]
    exact ⟨Approximates.refl v, FieldsApproximate.refl rest⟩

end

/-- Behind the same elements, elements are approximated by themselves. -/
theorem itemsApproximate_append {xs ys : List Json} (before : List Json)
    (h : ItemsApproximate xs ys) : ItemsApproximate (before ++ xs) (before ++ ys) := by
  induction before with
  | nil => exact h
  | cons v rest ih =>
    simp only [List.cons_append, ItemsApproximate]
    exact ⟨.refl v, ih⟩

/-- Members before those that differ are the same on both sides. -/
theorem fieldsApproximate_append {xs ys : Fields} (before : Fields)
    (h : FieldsApproximate xs ys) : FieldsApproximate (before ++ xs) (before ++ ys) := by
  induction before with
  | nil => exact h
  | cons field rest ih =>
    simp only [List.cons_append, FieldsApproximate, true_and]
    exact ⟨.refl field.2, ih⟩

/-- An approximation has the first keys of what it approximates. -/
theorem FieldsApproximate.keys_isPrefix {xs ys : Fields} (h : FieldsApproximate xs ys) :
    xs.keys <+: ys.keys := by
  induction xs generalizing ys with
  | nil => exact List.nil_prefix
  | cons x rest ih =>
    cases ys with
    | nil => simp only [FieldsApproximate] at h
    | cons y more =>
      simp only [FieldsApproximate] at h
      exact List.cons_prefix_cons.2 ⟨h.1, ih h.2.2⟩

/-! ### Keys that stand once -/

mutual

/-- No object in the value has a key twice. -/
def DistinctKeys : Json → Prop
  | .null | .bool _ | .number _ | .string _ => True
  | .array items => DistinctKeysItems items
  | .object fields => (Fields.keys fields).Nodup ∧ DistinctKeysFields fields

/-- The elements have objects with distinct keys only. -/
def DistinctKeysItems : List Json → Prop
  | [] => True
  | v :: rest => DistinctKeys v ∧ DistinctKeysItems rest

/-- The members have objects with distinct keys only; their own keys are looked at elsewhere. -/
def DistinctKeysFields : List (String × Json) → Prop
  | [] => True
  | (_, v) :: rest => DistinctKeys v ∧ DistinctKeysFields rest

end

mutual

/-- Nothing is left to settle. -/
theorem DistinctKeys.settled : ∀ v : Json, DistinctKeys v → v.settled = v
  | .null, _ | .bool _, _ | .number _, _ | .string _, _ => rfl
  | .array items, h => by
    simp only [DistinctKeys] at h
    rw [Json.settled, DistinctKeys.settledItems items h]
  | .object fields, h => by
    simp only [DistinctKeys] at h
    rw [Json.settled, DistinctKeys.settledMembers fields h.2, Fields.ofList,
      Fields.merge_of_nodup (by simpa [Fields.keys] using h.1), List.nil_append]

/-- Elements with distinct keys are settled as they stand. -/
theorem DistinctKeys.settledItems : ∀ items : List Json, DistinctKeysItems items →
    Json.settledItems items = items
  | [], _ => rfl
  | v :: rest, h => by
    simp only [DistinctKeysItems] at h
    rw [Json.settledItems, DistinctKeys.settled v h.1, DistinctKeys.settledItems rest h.2]

/-- Members with distinct keys within are settled as they stand. -/
theorem DistinctKeys.settledMembers : ∀ fields : List (String × Json), DistinctKeysFields fields →
    Json.settledMembers fields = fields
  | [], _ => rfl
  | (_, v) :: rest, h => by
    simp only [DistinctKeysFields] at h
    rw [Json.settledMembers, DistinctKeys.settled v h.1, DistinctKeys.settledMembers rest h.2]

end

mutual

/-- What approximates a value with distinct keys has distinct keys, so it is settled, too. -/
theorem Approximates.distinctKeys : ∀ w v : Json, Approximates w v → DistinctKeys v → DistinctKeys w
  | .null, _, _, _ | .bool _, _, _, _ | .number _, _, _, _ | .string _, _, _, _ => by
    simp only [DistinctKeys]
  | .array xs, .array ys, h, hv => by
    simp only [Approximates, DistinctKeys] at h hv ⊢
    exact ItemsApproximate.distinctKeys xs ys h hv
  | .object xs, .object ys, h, hv => by
    simp only [Approximates, DistinctKeys] at h hv ⊢
    exact ⟨h.keys_isPrefix.sublist.nodup hv.1, FieldsApproximate.distinctKeys xs ys h hv.2⟩
  | .array _, .null, h, _ | .array _, .bool _, h, _ | .array _, .number _, h, _
  | .array _, .string _, h, _ | .array _, .object _, h, _ | .object _, .null, h, _
  | .object _, .bool _, h, _ | .object _, .number _, h, _ | .object _, .string _, h, _
  | .object _, .array _, h, _ => by simp only [Approximates] at h

theorem ItemsApproximate.distinctKeys : ∀ xs ys : List Json, ItemsApproximate xs ys →
    DistinctKeysItems ys → DistinctKeysItems xs
  | [], _, _, _ => by simp only [DistinctKeysItems]
  | x :: xs, y :: ys, h, hv => by
    simp only [ItemsApproximate, DistinctKeysItems] at h hv ⊢
    exact ⟨Approximates.distinctKeys x y h.1 hv.1, ItemsApproximate.distinctKeys xs ys h.2 hv.2⟩
  | _ :: _, [], h, _ => by simp only [ItemsApproximate] at h

theorem FieldsApproximate.distinctKeys : ∀ xs ys : List (String × Json), FieldsApproximate xs ys →
    DistinctKeysFields ys → DistinctKeysFields xs
  | [], _, _, _ => by simp only [DistinctKeysFields]
  | (_, x) :: xs, (_, y) :: ys, h, hv => by
    simp only [FieldsApproximate, DistinctKeysFields] at h hv ⊢
    exact ⟨Approximates.distinctKeys x y h.2.1 hv.1,
      FieldsApproximate.distinctKeys xs ys h.2.2 hv.2⟩
  | _ :: _, [], h, _ => by simp only [FieldsApproximate] at h

end

end AgentSurface.Json
