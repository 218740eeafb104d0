import Mathlib.Data.List.Nodup

/-!
# Lists with keys

Members, components, files and snapshots are kept in lists and found by a key.  Where no key stands
twice, what is found under a key is the one member with it, so the order of the list does not matter.
-/

namespace AgentSurface.Keyed

section

variable {α : Type} {key : α → String} {l : List α}

/-- With distinct keys, what is found under a key is the one member that has it. -/
theorem find?_eq_some_iff (h : (l.map key).Nodup) {k : String} {x : α} :
    l.find? (fun y => key y == k) = some x ↔ x ∈ l ∧ key x = k := by
  refine ⟨fun hx => ⟨List.mem_of_find?_eq_some hx, by simpa using List.find?_some hx⟩, ?_⟩
  rintro ⟨hmem, rfl⟩
  obtain ⟨y, hy⟩ : ∃ y, l.find? (fun y => key y == key x) = some y :=
    Option.isSome_iff_exists.1 (List.find?_isSome.2 ⟨x, hmem, beq_self_eq_true _⟩)
  have hkey : key y = key x := by simpa using List.find?_some hy
  rw [hy, List.inj_on_of_nodup_map h (List.mem_of_find?_eq_some hy) hmem hkey]

end

variable {β : Type} {members : List (String × β)}

/-- With distinct keys, what is looked up under a key is what the member there holds. -/
theorem lookUp_eq_some_iff (h : (members.map Prod.fst).Nodup) {k : String} {v : β} :
    (members.find? (·.1 == k)).map (·.2) = some v ↔ (k, v) ∈ members := by
  rw [Option.map_eq_some_iff]
  constructor
  · rintro ⟨m, hm, rfl⟩
    obtain ⟨hmem, rfl⟩ := (find?_eq_some_iff h).1 hm
    exact hmem
  · exact fun hmem => ⟨(k, v), (find?_eq_some_iff h).2 ⟨hmem, rfl⟩, rfl⟩

end AgentSurface.Keyed
