import Mathlib.Data.List.Nodup
import AgentSurface.Json.Basic
import AgentSurface.Proofs.Keyed

/-!
# Json — members with different keys

A new key goes last, so members whose keys are all different are merged by joining them.  A key that
is present keeps its place, so the keys of members stay where they are in all that is merged into
them, and merging the outcome into the same members again changes nothing.  What is found under a
key is what was merged last.
-/

namespace AgentSurface.Json.Fields

theorem keys_append (fields more : Fields) : (fields ++ more).keys = fields.keys ++ more.keys :=
  List.map_append

/-- A key that is new goes to the end. -/
theorem insert_of_not_mem {fields : Fields} {key : String} (h : key ∉ fields.keys) (v : Json) :
    fields.insert key v = fields ++ [(key, v)] := by
  induction fields with
  | nil => rfl
  | cons field rest ih =>
    obtain ⟨hne, hrest⟩ := List.ne_and_not_mem_of_not_mem_cons h
    rw [Fields.insert, if_neg (by simpa using Ne.symm hne), ih hrest, List.cons_append]

/-- Members with different new keys are put behind those before. -/
theorem merge_of_nodup {fields more : Fields} (h : (fields.keys ++ more.keys).Nodup) :
    fields.merge more = fields ++ more := by
  induction more generalizing fields with
  | nil => exact (List.append_nil fields).symm
  | cons field rest ih =>
    have hnew : field.1 ∉ fields.keys := fun hmem =>
      (List.nodup_append.1 h).2.2 field.1 hmem field.1 (by simp [keys]) rfl
    have hkeys : ((fields ++ [field]).keys ++ keys rest).Nodup := by simpa [keys] using h
    show (fields.insert field.1 field.2).merge rest = _
    rw [insert_of_not_mem hnew, ih hkeys, List.append_assoc, List.singleton_append]

/-! ### Keys that are present -/

/-- Inserting adds the key at the end, or none where it is there already. -/
theorem keys_insert (fields : Fields) (key : String) (v : Json) :
    (fields.insert key v).keys =
      if key ∈ fields.keys then fields.keys else fields.keys ++ [key] := by
  induction fields with
  | nil => rfl
  | cons field rest ih =>
    obtain ⟨k, old⟩ := field
    by_cases hkey : k = key
    · simp [Fields.insert, keys, hkey]
    · have hcons : ∀ v more, keys ((k, v) :: more) = k :: keys more := fun _ _ => rfl
      rw [Fields.insert, if_neg (by simpa using hkey), hcons, hcons]
      by_cases hmem : key ∈ keys rest
      · rw [ih, if_pos hmem, if_pos (List.mem_cons_of_mem k hmem)]
      · rw [ih, if_neg hmem, if_neg (by simpa [Ne.symm hkey] using hmem), List.cons_append]

/-- The keys stay in their places. -/
theorem keys_isPrefix_merge (fields more : Fields) : fields.keys <+: (fields.merge more).keys := by
  induction more generalizing fields with
  | nil => exact List.prefix_rfl
  | cons field rest ih =>
    refine List.IsPrefix.trans ?_ (ih (fields.insert field.1 field.2))
    rw [keys_insert]
    split
    · exact List.prefix_rfl
    · exact List.prefix_append _ _

/-- Merging into distinct keys keeps them distinct. -/
theorem nodup_keys_merge {fields : Fields} (h : fields.keys.Nodup) (more : Fields) :
    (fields.merge more).keys.Nodup := by
  induction more generalizing fields with
  | nil => exact h
  | cons field rest ih =>
    refine ih ?_
    rw [keys_insert]
    split
    · exact h
    · next hnew => exact h.append (List.nodup_singleton _) (by simpa using hnew)

/-- What is merged under other keys leaves the first member alone. -/
theorem merge_cons_of_not_mem {field : String × Json} {rest more : Fields}
    (h : field.1 ∉ more.keys) : Fields.merge (field :: rest) more = field :: rest.merge more := by
  induction more generalizing rest with
  | nil => rfl
  | cons m ms ih =>
    obtain ⟨hne, hms⟩ := List.ne_and_not_mem_of_not_mem_cons h
    have hinsert : Fields.insert (field :: rest) m.1 m.2 = field :: rest.insert m.1 m.2 := by
      rw [Fields.insert, if_neg (by simpa using hne)]
    show (Fields.insert (field :: rest) m.1 m.2).merge ms = _
    rw [hinsert]
    exact ih hms

/-- Members that begin with the same keys take the place of those before. -/
theorem merge_of_isPrefix {fields more : Fields} (hbegin : fields.keys <+: more.keys)
    (hnodup : more.keys.Nodup) : fields.merge more = more := by
  induction fields generalizing more with
  | nil => exact merge_of_nodup (by simpa [keys] using hnodup)
  | cons field rest ih =>
    cases more with
    | nil => simp [keys] at hbegin
    | cons m ms =>
      obtain ⟨hkey, hrest⟩ := List.cons_prefix_cons.1 hbegin
      obtain ⟨hnew, hms⟩ := List.nodup_cons.1 hnodup
      have hinsert : Fields.insert (field :: rest) m.1 m.2 = m :: rest := by
        rw [Fields.insert, if_pos (by simpa using hkey)]
        exact congrArg (· :: rest) (Prod.ext hkey rfl)
      show (Fields.insert (field :: rest) m.1 m.2).merge ms = _
      rw [hinsert, merge_cons_of_not_mem hnew, ih hrest hms]

/-- **Defaults merged twice are merged once.** -/
theorem merge_merge {fields : Fields} (h : fields.keys.Nodup) (more : Fields) :
    fields.merge (fields.merge more) = fields.merge more :=
  merge_of_isPrefix (keys_isPrefix_merge fields more) (nodup_keys_merge h more)

/-! ### What is found after a merge -/

/-- Under the inserted key stands the inserted value, under any other what stood there. -/
theorem get?_insert (fields : Fields) (key other : String) (v : Json) :
    (fields.insert key v).get? other = if key = other then some v else fields.get? other := by
  induction fields with
  | nil => by_cases hkey : key = other <;> simp [Fields.insert, Fields.get?, hkey]
  | cons field rest ih =>
    obtain ⟨k, old⟩ := field
    have hcons : ∀ (w : Json) (more : Fields), Fields.get? ((k, w) :: more) other =
        if k = other then some w else more.get? other := by
      intro w more
      by_cases hkey : k = other <;> simp [Fields.get?, hkey]
    by_cases hkey : k = key
    · rw [Fields.insert, if_pos (by simpa using hkey), hcons, hcons, hkey]
      by_cases hother : key = other <;> simp [hother]
    · rw [Fields.insert, if_neg (by simpa using hkey), hcons, hcons, ih]
      by_cases hother : k = other
      · rw [if_pos hother, if_pos hother, if_neg fun h => hkey (hother.trans h.symm)]
      · rw [if_neg hother, if_neg hother]

/-- Behind one another, the fields in front are asked first. -/
theorem get?_append (fields more : Fields) (key : String) :
    Fields.get? (fields ++ more) key = (fields.get? key).or (more.get? key) := by
  simp [Fields.get?, List.find?_append, Option.map_or]

/-- What is merged into members lies over them, and of two members with one key the later one. -/
theorem get?_merge (fields more : Fields) (key : String) :
    (fields.merge more).get? key = (Fields.get? more.reverse key).or (fields.get? key) := by
  induction more generalizing fields with
  | nil => rfl
  | cons field rest ih =>
    show ((fields.insert field.1 field.2).merge rest).get? key = _
    rw [ih, get?_insert, List.reverse_cons, get?_append, Option.or_assoc]
    by_cases hkey : field.1 = key <;> simp [Fields.get?, hkey]

/-- Merged fields have the keys of both. -/
theorem mem_keys_merge {fields more : Fields} {key : String} :
    key ∈ (fields.merge more).keys ↔ key ∈ fields.keys ∨ key ∈ more.keys := by
  induction more generalizing fields with
  | nil => simp [Fields.merge, keys]
  | cons field rest ih =>
    have hinsert : key ∈ (fields.insert field.1 field.2).keys ↔
        key ∈ fields.keys ∨ key = field.1 := by
      rw [keys_insert]
      split
      · next hmem => exact ⟨.inl, fun h => h.elim id fun heq => heq ▸ hmem⟩
      · exact List.mem_append.trans (or_congr_right List.mem_singleton)
    show key ∈ ((fields.insert field.1 field.2).merge rest).keys ↔ _
    rw [ih, hinsert, or_assoc]
    exact or_congr_right List.mem_cons.symm

/-! ### Keys that stand once -/

theorem mem_keys_of_mem {fields : Fields} {m : String × Json} (h : m ∈ fields) :
    m.1 ∈ fields.keys :=
  List.mem_map_of_mem h

/-- Where no key stands twice, looking up is being a member. -/
theorem get?_eq_some_iff {fields : Fields} (h : fields.keys.Nodup) {key : String} {v : Json} :
    fields.get? key = some v ↔ (key, v) ∈ fields :=
  Keyed.lookUp_eq_some_iff h

/-- What is merged into members is found under its key. -/
theorem get?_merge_of_get? {fields more : Fields} (h : more.keys.Nodup) {key : String} {v : Json}
    (hv : more.get? key = some v) : (fields.merge more).get? key = some v := by
  have hreverse : Fields.keys more.reverse = more.keys.reverse := List.map_reverse
  have hlast : Fields.get? more.reverse key = some v :=
    (get?_eq_some_iff (hreverse ▸ List.nodup_reverse.2 h)).2
      (List.mem_reverse.2 ((get?_eq_some_iff h).1 hv))
  rw [get?_merge, hlast, Option.some_or]

/-- Members before a key do not move when it is taken out. -/
theorem takeOut_append_of_not_mem {fields : Fields} {key : String} (h : key ∉ fields.keys)
    (more : Fields) : takeOut (fields ++ more) key = fields ++ takeOut more key := by
  induction fields with
  | nil => rfl
  | cons field rest ih =>
    obtain ⟨hne, hrest⟩ := List.ne_and_not_mem_of_not_mem_cons h
    rw [List.cons_append, takeOut, if_neg (by simpa using Ne.symm hne), ih hrest, List.cons_append]

theorem takeOut_of_not_mem {fields : Fields} {key : String} (h : key ∉ fields.keys) :
    takeOut fields key = fields := by
  simpa [takeOut] using takeOut_append_of_not_mem h []

theorem takeOut_singleton (key : String) (v : Json) : takeOut [(key, v)] key = [] := by
  simp [takeOut]

/-- The last member moves into the place of the first one. -/
theorem takeOut_head (key : String) (v : Json) (between : Fields) (last : String × Json) :
    takeOut ((key, v) :: (between ++ [last])) key = last :: between := by
  simp [takeOut]

/-- Taking a key out is leaving out its member, up to the order. -/
theorem perm_takeOut {fields : Fields} (h : fields.keys.Nodup) (key : String) :
    (fields.takeOut key).Perm (fields.filter fun m => m.1 ≠ key) := by
  induction fields with
  | nil => exact .nil
  | cons field rest ih =>
    obtain ⟨k, v⟩ := field
    obtain ⟨hnew, hrest⟩ : k ∉ keys rest ∧ (keys rest).Nodup := List.nodup_cons.1 h
    by_cases hkey : k = key
    · subst hkey
      have hkept : rest.filter (fun m => m.1 ≠ k) = rest := by
        refine List.filter_eq_self.2 fun m hm => decide_eq_true fun heq => hnew ?_
        exact heq ▸ mem_keys_of_mem hm
      rw [takeOut, if_pos (beq_self_eq_true k), List.filter_cons_of_neg (by simp), hkept]
      split
      · next last hlast =>
        have hsplit := List.dropLast_append_getLast? last hlast
        exact (List.perm_append_singleton last rest.dropLast).symm.trans (.of_eq hsplit)
      · next hnone => rw [List.getLast?_eq_none_iff.1 hnone]
    · rw [takeOut, if_neg (by simpa using hkey), List.filter_cons_of_pos (by simpa using hkey)]
      exact (ih hrest).cons _

/-- Taking a key out keeps the others distinct. -/
theorem nodup_keys_takeOut {fields : Fields} (h : fields.keys.Nodup) (key : String) :
    (fields.takeOut key).keys.Nodup :=
  ((perm_takeOut h key).map Prod.fst).nodup_iff.2 (List.filter_sublist.map Prod.fst |>.nodup h)

/-- What is taken out leaves the other members. -/
theorem get?_takeOut_of_ne {fields : Fields} (h : fields.keys.Nodup) {key other : String}
    (hne : other ≠ key) : (fields.takeOut key).get? other = fields.get? other := by
  refine Option.ext fun v => ?_
  rw [get?_eq_some_iff (nodup_keys_takeOut h key), get?_eq_some_iff h,
    (perm_takeOut h key).mem_iff, List.mem_filter]
  simp [hne]

end AgentSurface.Json.Fields
