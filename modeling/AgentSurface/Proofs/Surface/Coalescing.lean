import AgentSurface.Proofs.Surface.Reducer

/-!
# Surface — updates put together

Several updates can be put together before they are taken in: each identifier keeps the place where
it comes first and the payload that it has last (`Coalesces`).  Two facts about one entry carry
this.  An entry undoes an entry with its identifier before it (`upsert_upsert_of_eq`), and an entry
whose identifier is there already can be taken in before any other (`upsert_comm`); so the last
entry with an identifier can be moved to the place of the first one (`applyEntries_last`).

Taking in everything once more is taking in a list that is put together to the same entries, so it
changes nothing.

* `Coalesces.applyEntries_eq`: entries and what they are put together to lead to the same surface.
* `coalesced_and_replayed`: the same of messages, and of messages that are taken in twice.
-/

namespace AgentSurface.Surface

open Update (ValidEntry Validation)

variable {s : Surface} {e x y : ValidEntry} {entries short : List ValidEntry}

/-! ### Entries put together -/

/-- `x` is the last of the entries with its identifier. -/
def IsLast (entries : List ValidEntry) (x : ValidEntry) : Prop :=
  ∃ before after, entries = before ++ x :: after ∧ ∀ later ∈ after, later.id ≠ x.id

/-- Each identifier of the entries stands once, in the order in which the identifiers first come,
and with the payload of the last entry that has it. -/
structure Coalesces (entries short : List ValidEntry) : Prop where
  ids : short.map (·.id) = (entries.map (·.id)).eraseDups
  last : ∀ e ∈ short, ∃ x, IsLast entries x ∧ Alike e x

/-- The last of the entries with an identifier. -/
def last? (entries : List ValidEntry) (id : String) : Option ValidEntry :=
  entries.reverse.find? (·.id == id)

/-- Put entries together. -/
def coalesce (entries : List ValidEntry) : List ValidEntry :=
  (entries.map (·.id)).eraseDups.filterMap (last? entries)

theorem isLast_of_last? {id : String} (h : last? entries id = some x) :
    x.id = id ∧ IsLast entries x := by
  obtain ⟨hid, later, earlier, hreverse, hlater⟩ := List.find?_eq_some_iff_append.1 h
  obtain rfl : x.id = id := by simpa using hid
  refine ⟨rfl, earlier.reverse, later.reverse, ?_, fun e he => ?_⟩
  · rw [← List.reverse_reverse entries, hreverse]
    simp
  · simpa using hlater e (List.mem_reverse.1 he)

theorem exists_last?_of_mem {id : String} (h : id ∈ entries.map (·.id)) :
    ∃ x, last? entries id = some x := by
  rw [← Option.isSome_iff_exists, last?, List.find?_isSome]
  simpa using h

/-- Looking names up that are all there gives an entry for each of them. -/
theorem map_filterMap_last? {ids : List String} (h : ∀ id ∈ ids, id ∈ entries.map (·.id)) :
    (ids.filterMap (last? entries)).map (·.id) = ids := by
  induction ids with
  | nil => rfl
  | cons id rest ih =>
    obtain ⟨hid, hrest⟩ := List.forall_mem_cons.1 h
    obtain ⟨x, hx⟩ := exists_last?_of_mem hid
    rw [List.filterMap_cons_some hx, List.map_cons, ih hrest, (isLast_of_last? hx).1]

/-- Coalescing keeps, for each id, its last entry. -/
theorem coalesces_coalesce (entries : List ValidEntry) : Coalesces entries (coalesce entries) where
  ids := map_filterMap_last? fun _ hid => List.mem_eraseDups.1 hid
  last := by
    intro e he
    obtain ⟨id, -, hid⟩ := List.mem_filterMap.1 he
    exact ⟨e, (isLast_of_last? hid).2, rfl⟩

/-! ### Two entries -/

/-- An update goes to the entries that have the key, if there are any. -/
theorem updateIn_append_of_mem {old : List (String × Entry)} (h : e.id ∈ old.map (·.1))
    (more : List (String × Entry)) : updateIn e (old ++ more) = updateIn e old ++ more := by
  induction old with
  | nil => simp at h
  | cons first rest ih =>
    by_cases hkey : first.1 = e.id
    · simp [updateIn, hkey]
    · have hrest : e.id ∈ rest.map (·.1) := by simpa [Ne.symm hkey] using h
      simp [updateIn, hkey, ih hrest]

theorem updateIn_append_of_not_mem {old : List (String × Entry)} (h : e.id ∉ old.map (·.1))
    (more : List (String × Entry)) : updateIn e (old ++ more) = old ++ updateIn e more := by
  induction old with
  | nil => rfl
  | cons first rest ih =>
    obtain ⟨hkey, hrest⟩ : ¬ e.id = first.1 ∧ e.id ∉ rest.map (·.1) := by simpa using h
    simp [updateIn, Ne.symm hkey, ih hrest]

/-- Of two updates under one id only the second is left. -/
theorem updateIn_updateIn_of_eq (h : x.id = y.id) (old : List (String × Entry)) :
    updateIn y (updateIn x old) = updateIn y old := by
  induction old with
  | nil => rfl
  | cons first rest ih =>
    by_cases hkey : first.1 = y.id
    · simp [updateIn, h, hkey, Entry.update]
    · simp [updateIn, h, hkey, ih]

/-- Updates under different ids may be made in either order. -/
theorem updateIn_comm (h : x.id ≠ y.id) (old : List (String × Entry)) :
    updateIn y (updateIn x old) = updateIn x (updateIn y old) := by
  induction old with
  | nil => rfl
  | cons first rest ih =>
    by_cases hx : first.1 = x.id
    · simp [updateIn, hx, h]
    · by_cases hy : first.1 = y.id
      · simp [updateIn, hy, Ne.symm h]
      · simp [updateIn, hx, hy, ih]

theorem self_mem_ids_upsert (s : Surface) (e : ValidEntry) : e.id ∈ (s.upsert e).ids := by
  obtain ⟨z, hz, -⟩ := exists_get?_upsert s e
  exact isSome_get?_iff.1 ⟨z, hz⟩

/-- An id that is there stays there. -/
theorem mem_ids_upsert {id : String} (h : id ∈ s.ids) (e : ValidEntry) :
    id ∈ (s.upsert e).ids := by
  rw [ids_upsert]
  split
  · exact h
  · exact List.mem_append_left _ h

theorem not_mem_ids_upsert {id : String} (h : id ∉ s.ids) (hne : id ≠ e.id) :
    id ∉ (s.upsert e).ids := by
  rw [ids_upsert]
  split
  · exact h
  · simp [h, hne]

/-- **An entry undoes the one before it with its identifier.** -/
theorem upsert_upsert_of_eq (h : x.id = y.id) (s : Surface) :
    (s.upsert x).upsert y = s.upsert y := by
  rw [upsert_of_mem (h ▸ self_mem_ids_upsert s x)]
  by_cases hy : y.id ∈ s.ids
  · rw [upsert_of_mem hy, upsert_of_mem (h ▸ hy), updateIn_updateIn_of_eq h]
  · rw [upsert_of_not_mem hy, upsert_of_not_mem (h ▸ hy), updateIn_append_of_not_mem hy]
    simp [updateIn, h, Entry.update, Entry.ofValid]

/-- **An entry whose identifier is there can be taken in before any other.** -/
theorem upsert_comm (hmem : x.id ∈ s.ids) (h : x.id ≠ y.id) :
    (s.upsert y).upsert x = (s.upsert x).upsert y := by
  rw [upsert_of_mem (mem_ids_upsert hmem y)]
  by_cases hy : y.id ∈ s.ids
  · rw [upsert_of_mem (mem_ids_upsert hy x), upsert_of_mem hmem, upsert_of_mem hy,
      updateIn_comm h]
  · rw [upsert_of_not_mem (not_mem_ids_upsert hy (Ne.symm h)), upsert_of_mem hmem,
      upsert_of_not_mem hy, updateIn_append_of_mem hmem]

/-! ### Lists of entries -/

/-- An entry whose identifier is there takes the place of all entries before it that have its
identifier, and goes before the others. -/
theorem applyEntries_of_mem (hmem : x.id ∈ s.ids) (before : List ValidEntry)
    {after : List ValidEntry} (hafter : ∀ later ∈ after, later.id ≠ x.id) :
    s.applyEntries (before ++ x :: after) =
      (s.upsert x).applyEntries ((before ++ x :: after).filter (·.id ≠ x.id)) := by
  induction before generalizing s with
  | nil =>
    have hkept : (x :: after).filter (·.id ≠ x.id) = after := by
      rw [List.filter_cons_of_neg (by simp), List.filter_eq_self]
      simpa using hafter
    rw [List.nil_append, hkept, applyEntries_cons]
  | cons y rest ih =>
    -- `x` was moved to the front of the rest; now `y` is undone by it, or changes places with it.
    rw [List.cons_append, applyEntries_cons, ih (mem_ids_upsert hmem y)]
    by_cases hy : y.id = x.id
    · rw [upsert_upsert_of_eq hy, List.filter_cons_of_neg (by simpa using hy)]
    · rw [upsert_comm hmem (Ne.symm hy), List.filter_cons_of_pos (by simpa using hy),
        applyEntries_cons]

/-- **The last entry with an identifier can stand in the place of the first one**, and the others
with it be left out. -/
theorem applyEntries_last (hlast : IsLast (e :: entries) x) (hid : x.id = e.id) (s : Surface) :
    s.applyEntries (e :: entries) =
      (s.upsert x).applyEntries (entries.filter (·.id ≠ e.id)) := by
  obtain ⟨before, after, hsplit, hafter⟩ := hlast
  cases before with
  | nil =>
    obtain ⟨rfl, rfl⟩ := List.cons_eq_cons.1 hsplit
    have hkept : entries.filter (·.id ≠ e.id) = entries := by
      rw [List.filter_eq_self]
      simpa using hafter
    rw [hkept, applyEntries_cons]
  | cons first rest =>
    obtain ⟨rfl, hentries⟩ := List.cons_eq_cons.1 hsplit
    have hmem : x.id ∈ (s.upsert e).ids := hid ▸ self_mem_ids_upsert s e
    rw [applyEntries_cons, hentries]
    refine (applyEntries_of_mem hmem rest hafter).trans ?_
    rw [upsert_upsert_of_eq hid.symm, hid]
    rfl

theorem IsLast.filter {p : ValidEntry → Bool} (h : IsLast entries x) (hx : p x = true) :
    IsLast (entries.filter p) x := by
  obtain ⟨before, after, rfl, hafter⟩ := h
  refine ⟨before.filter p, after.filter p, ?_, fun later hlater => ?_⟩
  · rw [List.filter_append, List.filter_cons_of_pos hx]
  · exact hafter later (List.mem_of_mem_filter hlater)

theorem Coalesces.id_eq (h : Coalesces (e :: entries) (x :: short)) : x.id = e.id := by
  have hids := h.ids
  rw [List.map_cons, List.map_cons, List.eraseDups_cons] at hids
  exact (List.cons_eq_cons.1 hids).1

/-- Behind the first identifier, the others are put together. -/
theorem Coalesces.tail (h : Coalesces (e :: entries) (x :: short)) :
    Coalesces (entries.filter (·.id ≠ e.id)) short := by
  have hids : short.map (·.id) = ((entries.filter (·.id ≠ e.id)).map (·.id)).eraseDups := by
    have hids := h.ids
    rw [List.map_cons, List.map_cons, List.eraseDups_cons, List.filter_map] at hids
    rw [(List.cons_eq_cons.1 hids).2]
    congr 2
    exact List.filter_congr fun y _ => by by_cases hy : y.id = e.id <;> simp [hy]
  refine ⟨hids, fun z hz => ?_⟩
  obtain ⟨y, hlast, halike⟩ := h.last z (List.mem_cons_of_mem x hz)
  have hne : y.id ≠ e.id := by
    have hmem : z.id ∈ short.map (·.id) := List.mem_map_of_mem hz
    rw [hids, List.mem_eraseDups] at hmem
    obtain ⟨kept, hkept, hid⟩ := List.mem_map.1 hmem
    rw [← halike.id_eq, ← hid]
    simpa using (List.mem_filter.1 hkept).2
  have hfilter := hlast.filter (p := (·.id ≠ e.id)) (by simpa using hne)
  rw [List.filter_cons_of_neg (by simp)] at hfilter
  exact ⟨y, hfilter, halike⟩

/-- **Entries lead where they lead when they are put together.** -/
theorem Coalesces.applyEntries_eq (h : Coalesces entries short) (s : Surface) :
    s.applyEntries entries = s.applyEntries short := by
  -- On what is put together: the entries lose all that have the identifier in front, not only one.
  induction short generalizing s entries with
  | nil =>
    cases entries with
    | nil => rfl
    | cons e entries =>
      have hids := h.ids
      rw [List.map_cons, List.eraseDups_cons] at hids
      cases hids
  | cons x rest ih =>
    cases entries with
    | nil => cases h.ids
    | cons e entries =>
      obtain ⟨y, hlast, halike⟩ := h.last x List.mem_cons_self
      rw [applyEntries_last hlast (halike.id_eq.symm.trans h.id_eq), ih h.tail, applyEntries_cons,
        halike.upsert_eq]

/-- What is put together twice over is put together once. -/
theorem Coalesces.twice (h : Coalesces entries short) : Coalesces (entries ++ entries) short where
  ids := by
    have hnone : (entries.map (·.id)).removeAll (entries.map (·.id)) = [] := by
      simp [List.removeAll, List.filter_eq_nil_iff]
    rw [h.ids, List.map_append, List.eraseDups_append, hnone, List.eraseDups_nil, List.append_nil]
  last := by
    intro e he
    obtain ⟨x, ⟨before, after, hsplit, hafter⟩, halike⟩ := h.last e he
    refine ⟨x, ⟨entries ++ before, after, ?_, hafter⟩, halike⟩
    rw [List.append_assoc, ← hsplit]

/-! ### Messages -/

/-- The entries of messages, one after the other. -/
def carried (messages : List Validation) : List ValidEntry := messages.flatMap (·.valid)

/-- Applying messages is applying the entries they carry. -/
theorem applyAll_eq (s : Surface) (messages : List Validation) :
    s.applyAll messages = s.applyEntries (carried messages) := by
  induction messages generalizing s with
  | nil => rfl
  | cons v rest ih =>
    rw [carried, List.flatMap_cons, applyEntries_append]
    exact ih (s.applyMessage v)

/-- **Updates can be put together, and taken in again.**  The messages lead to the surface to which
one message leads that has their entries put together, and there is such a message.  Taking all of
them in once more changes nothing. -/
theorem coalesced_and_replayed (s : Surface) (messages : List Validation) :
    Coalesces (carried messages) (coalesce (carried messages)) ∧
      (∀ v : Validation, Coalesces (carried messages) v.valid →
        s.applyAll messages = s.applyMessage v) ∧
      (s.applyAll messages).applyAll messages = s.applyAll messages := by
  have hshort : Coalesces (carried messages) (coalesce (carried messages)) :=
    coalesces_coalesce (carried messages)
  refine ⟨hshort, fun v hv => ?_, ?_⟩
  · rw [applyAll_eq, hv.applyEntries_eq s]
    rfl
  · calc (s.applyAll messages).applyAll messages
      _ = s.applyEntries (carried messages ++ carried messages) := by
        rw [applyAll_eq, applyAll_eq, applyEntries_append]
      _ = s.applyEntries (coalesce (carried messages)) := hshort.twice.applyEntries_eq s
      _ = s.applyAll messages := by rw [applyAll_eq, hshort.applyEntries_eq s]

/-- An identifier that the surface has, one that comes again in a later message, and one that comes
in between; the message that puts them together numbers its entries anew. -/
theorem coalesced_and_replayed_repeats :
    let note (index : Nat) (id : String) (data : Json) : ValidEntry :=
      ⟨index, id, "Note", data, .null, true⟩
    let s := Surface.applyEntries {} [note 0 "b" .null]
    let messages : List Validation :=
      [{ valid := [note 0 "a" .null, note 1 "b" (.bool false)] },
        { valid := [note 0 "c" .null, note 2 "a" (.bool true)] }]
    let together : Validation :=
      { valid := [note 0 "a" (.bool true), note 1 "b" (.bool false), note 2 "c" .null] }
    Coalesces (carried messages) together.valid ∧
      s.applyAll messages = s.applyMessage together ∧
      (s.applyAll messages).applyAll messages = s.applyAll messages ∧
      (s.applyAll messages).ids = ["b", "a", "c"] := by
  intro note s messages together
  have htogether : Coalesces (carried messages) together.valid := by
    refine ⟨rfl, List.forall_mem_cons.2 ⟨?_, List.forall_mem_cons.2 ⟨?_, List.forall_mem_cons.2
      ⟨?_, by simp⟩⟩⟩⟩
    · exact ⟨note 2 "a" (.bool true), ⟨[_, _, _], [], rfl, by simp⟩, rfl⟩
    · exact ⟨note 1 "b" (.bool false), ⟨[_], [_, _], rfl, by simp [note]⟩, rfl⟩
    · exact ⟨note 0 "c" .null, ⟨[_, _], [_], rfl, by simp [note]⟩, rfl⟩
  obtain ⟨-, hlead, hagain⟩ := coalesced_and_replayed s messages
  exact ⟨htogether, hlead together htogether, hagain, rfl⟩

end AgentSurface.Surface
