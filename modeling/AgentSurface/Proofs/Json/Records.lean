import AgentSurface.Json.Record
import AgentSurface.Proofs.Json.Fields

/-!
# Json — records are read as they were written

A record is written as an object without repeated keys, and its lists and maps element by element.

* `Record.of?_object`: such an object is a record of any fields.
* `list?_map_eq`, `members?_map_eq`: what each element is read as says what the whole is read as.
-/

namespace AgentSurface.Json

/-- An object without repeated keys is a record of any fields. -/
theorem Record.of?_object {fields : Fields} (h : fields.keys.Nodup) (names : List String) :
    Record.of? names (.object fields) = some ⟨fields⟩ := by
  have hcount : ∀ name, (fields.filter (·.1 == name)).length ≤ 1 := by
    intro name
    have hle := List.nodup_iff_count_le_one.1 h name
    rwa [Fields.keys, List.count, List.countP_map, List.countP_eq_length_filter] at hle
  simp only [Record.of?, hcount, decide_true, List.all_eq_true, implies_true, if_true]

section

variable {α β γ : Type} {encode : α → β} {decode : β → Option γ} {read : α → γ} {xs : List α}

/-- What is written element by element is read element by element. -/
theorem mapM_map_eq_some (h : ∀ x ∈ xs, decode (encode x) = some (read x)) :
    (xs.map encode).mapM decode = some (xs.map read) := by
  induction xs with
  | nil => rfl
  | cons x rest ih =>
    obtain ⟨hx, hrest⟩ := List.forall_mem_cons.1 h
    rw [List.map_cons, List.mapM_cons, hx, ih hrest]
    rfl

end

section

variable {α γ : Type} {encode : α → Json}

/-- A list of encoded records is decoded to what each of them decodes to. -/
theorem list?_map_eq {decode : Json → Option γ} {read : α → γ} {xs : List α}
    (h : ∀ x ∈ xs, decode (encode x) = some (read x)) :
    list? decode (.array (xs.map encode)) = some (xs.map read) :=
  mapM_map_eq_some h

theorem list?_map {decode : Json → Option α} {xs : List α}
    (h : ∀ x ∈ xs, decode (encode x) = some x) :
    list? decode (.array (xs.map encode)) = some xs := by
  have hread : list? decode (.array (xs.map encode)) = some (xs.map id) := list?_map_eq h
  rwa [List.map_id] at hread

/-- Members under distinct keys are decoded to what each of them decodes to. -/
theorem members?_map_eq {decode : Json → Option γ} {read : α → γ} {members : List (String × α)}
    (hkeys : (members.map Prod.fst).Nodup)
    (h : ∀ m ∈ members, decode (encode m.2) = some (read m.2)) :
    members? decode (.object (members.map fun m => (m.1, encode m.2))) =
      some (members.map fun m => (m.1, read m.2)) := by
  have hnodup : (Fields.keys (members.map fun m => (m.1, encode m.2))).Nodup := by
    rwa [Fields.keys, List.map_map]
  have hsettled : Fields.ofList (members.map fun m => (m.1, encode m.2)) =
      members.map fun m => (m.1, encode m.2) := Fields.merge_of_nodup hnodup
  rw [members?, fields?, Option.bind_some, hsettled]
  split
  · refine mapM_map_eq_some fun m hm => ?_
    dsimp only
    rw [h m hm]
    rfl
  · next hnot =>
    refine absurd (List.all_eq_true.2 (List.forall_mem_map.2 fun m hm => ?_)) hnot
    dsimp only
    rw [h m hm]
    rfl

theorem members?_map {decode : Json → Option α} {members : List (String × α)}
    (hkeys : (members.map Prod.fst).Nodup)
    (h : ∀ m ∈ members, decode (encode m.2) = some m.2) :
    members? decode (.object (members.map fun m => (m.1, encode m.2))) = some members := by
  have hread : members? decode (.object (members.map fun m => (m.1, encode m.2))) =
      some (members.map fun m => (m.1, id m.2)) := members?_map_eq hkeys h
  exact hread.trans (congrArg some (List.map_id members))

end

end AgentSurface.Json
