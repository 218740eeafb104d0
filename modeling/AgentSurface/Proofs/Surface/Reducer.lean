import Mathlib.Data.List.Nodup
import AgentSurface.Surface.Basic

/-!
# Surface — the last entry wins, the first one gives the place

`upsert` is described by three views of a surface: the identifiers in order (`ids_upsert`), the
component under an identifier (`get?_upsert_self`, `get?_upsert_of_ne`), and the number of the next
component.  From these one step keeps a surface well-formed (`WellFormed.upsert`), and so every run
does (`Reachable.wellFormed`).

* `LastWins` says what a list of entries makes of a surface, without regard to how it is taken in.
* `last_entry_wins`: in every surface that some run of operations reaches, the redundant views agree,
  and further entries do to it what `LastWins` says.
-/

namespace AgentSurface.Surface

open Update (ValidEntry Validation)

variable {s : Surface} {e : ValidEntry} {id : String}

/-- The component shows what the entry gave it. -/
structure Entry.Shows (x : Entry) (e : ValidEntry) : Prop where
  typeName : x.typeName = e.typeName
  data : x.data = e.data
  options : x.options = e.options
  known : x.known = e.known

theorem Entry.shows_update (x : Entry) (e : ValidEntry) : (x.update e).Shows e :=
  ⟨rfl, rfl, rfl, rfl⟩

theorem Entry.shows_ofValid (e : ValidEntry) (seq : Nat) : (Entry.ofValid e seq).Shows e :=
  ⟨rfl, rfl, rfl, rfl⟩

/-! ### The component under an identifier -/

/-- A surface contains exactly the ids it lists. -/
theorem contains_iff : s.contains id = true ↔ id ∈ s.ids := by
  simp [contains, ids]

theorem get?_eq_none_iff : s.get? id = none ↔ id ∉ s.ids := by
  rw [get?, Option.map_eq_none_iff, List.find?_eq_none, ids, List.mem_map, not_exists]
  exact forall_congr' fun pair => by simp

/-- Something is found exactly under the ids that are listed. -/
theorem isSome_get?_iff : (∃ x, s.get? id = some x) ↔ id ∈ s.ids := by
  rw [← Option.isSome_iff_exists, Option.isSome_iff_ne_none, ne_eq, get?_eq_none_iff, not_not]

/-- Updating an entry leaves the keys as they are. -/
theorem map_fst_updateIn (e : ValidEntry) (entries : List (String × Entry)) :
    (updateIn e entries).map (·.1) = entries.map (·.1) := by
  induction entries with
  | nil => rfl
  | cons first rest ih =>
    simp only [updateIn]
    split
    · rfl
    · simp only [List.map_cons, ih]

/-- An update changes what stands under its own id and nothing else. -/
theorem find?_updateIn (e : ValidEntry) (entries : List (String × Entry)) (id : String) :
    (updateIn e entries).find? (·.1 == id) =
      (entries.find? (·.1 == id)).map fun x => if id = e.id then (x.1, x.2.update e) else x := by
  induction entries with
  | nil => rfl
  | cons first rest ih =>
    obtain ⟨key, old⟩ := first
    by_cases hkey : key = e.id
    · subst hkey
      by_cases hid : e.id = id
      · simp [updateIn, hid]
      · simp [updateIn, hid, Ne.symm hid]
    · by_cases hid : key = id
      · subst hid
        simp [updateIn, hkey]
      · simp [updateIn, hkey, hid, ih]

/-! ### One entry -/

/-- An entry whose id is known updates what stands there. -/
theorem upsert_of_mem (h : e.id ∈ s.ids) :
    s.upsert e = { s with entries := updateIn e s.entries } := by
  rw [upsert, if_pos (contains_iff.2 h)]

/-- An entry with a new id goes to the end, under the next number. -/
theorem upsert_of_not_mem (h : e.id ∉ s.ids) :
    s.upsert e =
      { entries := s.entries ++ [(e.id, .ofValid e s.nextSeq)], nextSeq := s.nextSeq + 1 } := by
  rw [upsert, if_neg (mt contains_iff.1 h)]

/-- A new identifier goes last. -/
theorem ids_upsert (s : Surface) (e : ValidEntry) :
    (s.upsert e).ids = if e.id ∈ s.ids then s.ids else s.ids ++ [e.id] := by
  by_cases h : e.id ∈ s.ids
  · rw [upsert_of_mem h, if_pos h]
    exact map_fst_updateIn e s.entries
  · rw [upsert_of_not_mem h, if_neg h]
    simp [ids]

/-- Other ids keep what they show. -/
theorem get?_upsert_of_ne (h : id ≠ e.id) : (s.upsert e).get? id = s.get? id := by
  unfold upsert get?
  split
  · rw [find?_updateIn]
    simp [h]
  · have hlast : ([(e.id, Entry.ofValid e s.nextSeq)].find? (·.1 == id)) = none := by
      simpa using Ne.symm h
    rw [List.find?_append, hlast, Option.or_none]

/-- A component that is there is updated, and keeps its number. -/
theorem get?_upsert_of_some {x : Entry} (h : s.get? e.id = some x) :
    (s.upsert e).get? e.id = some (x.update e) := by
  have hmem : s.contains e.id = true := contains_iff.2 (isSome_get?_iff.1 ⟨x, h⟩)
  unfold upsert get? at *
  rw [if_pos hmem, find?_updateIn]
  obtain ⟨pair, hpair, rfl⟩ := Option.map_eq_some_iff.1 h
  simp [hpair]

theorem get?_upsert_of_none (h : s.get? e.id = none) :
    (s.upsert e).get? e.id = some (.ofValid e s.nextSeq) := by
  have hmem : ¬ s.contains e.id = true := mt contains_iff.1 (get?_eq_none_iff.1 h)
  unfold upsert get? at *
  rw [if_neg hmem, List.find?_append, Option.map_eq_none_iff.1 h]
  simp

/-- Behind an entry, its identifier has a component that shows it. -/
theorem exists_get?_upsert (s : Surface) (e : ValidEntry) :
    ∃ x, (s.upsert e).get? e.id = some x ∧ x.Shows e := by
  cases h : s.get? e.id with
  | some x => exact ⟨_, get?_upsert_of_some h, x.shows_update e⟩
  | none => exact ⟨_, get?_upsert_of_none h, Entry.shows_ofValid e _⟩

/-- An entry leaves the number of every component as it is. -/
theorem exists_seq_upsert {x : Entry} (e : ValidEntry) (h : s.get? id = some x) :
    ∃ y, (s.upsert e).get? id = some y ∧ y.seq = x.seq := by
  by_cases hid : id = e.id
  · subst hid
    exact ⟨_, get?_upsert_of_some h, rfl⟩
  · exact ⟨x, (get?_upsert_of_ne hid).trans h, rfl⟩

/-! ### The index of an entry -/

/-- The same component, but for the index that its message gave it. -/
def Alike (x y : ValidEntry) : Prop := x = { y with index := x.index }

theorem Alike.id_eq {x y : ValidEntry} (h : Alike x y) : x.id = y.id := by rw [h]

theorem Alike.updateIn_eq {x y : ValidEntry} (h : Alike x y) (old : List (String × Entry)) :
    updateIn x old = updateIn y old := by
  induction old with
  | nil => rfl
  | cons first rest ih =>
    rw [updateIn, updateIn, ih, h]
    rfl

/-- The index of an entry has no part in taking it in. -/
theorem Alike.upsert_eq {x y : ValidEntry} (h : Alike x y) (s : Surface) :
    s.upsert x = s.upsert y := by
  rw [upsert, upsert, h.updateIn_eq, h]
  rfl

/-! ### The views that have to agree -/

/-- A key is the identifier of its entry and stands once; the entries are numbered by their places,
and the number of the next one is their count. -/
structure WellFormed (s : Surface) : Prop where
  nodup : s.ids.Nodup
  key : ∀ pair ∈ s.entries, pair.2.id = pair.1
  seq : ∀ (i : Nat) (x : Entry), s.toList[i]? = some x → x.seq = i
  nextSeq : s.nextSeq = s.size

theorem WellFormed.id_of_get? (h : s.WellFormed) {x : Entry} (hx : s.get? id = some x) :
    x.id = id := by
  obtain ⟨pair, hpair, rfl⟩ := Option.map_eq_some_iff.1 hx
  rw [h.key pair (List.mem_of_find?_eq_some hpair)]
  simpa using List.find?_some hpair

theorem wellFormed_empty : WellFormed {} :=
  ⟨List.nodup_nil, by simp, by simp [toList], rfl⟩

/-- The entry at a place after an update is the entry at that place, or its update. -/
theorem getElem?_updateIn {entries : List (String × Entry)} {i : Nat} {pair : String × Entry}
    (h : (updateIn e entries)[i]? = some pair) :
    ∃ old, entries[i]? = some old ∧ pair.1 = old.1 ∧ pair.2.id = old.2.id ∧
      pair.2.seq = old.2.seq := by
  induction entries generalizing i with
  | nil => simp [updateIn] at h
  | cons first rest ih =>
    simp only [updateIn] at h
    cases i with
    | zero =>
      refine ⟨first, rfl, ?_⟩
      split at h <;> cases h <;> exact ⟨rfl, rfl, rfl⟩
    | succ i =>
      split at h
      · exact ⟨pair, h, rfl, rfl, rfl⟩
      · exact ih h

theorem size_upsert_of_mem (h : e.id ∈ s.ids) : (s.upsert e).size = s.size := by
  have hids := congrArg List.length (ids_upsert s e)
  rw [if_pos h] at hids
  simpa [ids, size] using hids

/-- **One entry keeps the views in agreement.** -/
theorem WellFormed.upsert (h : s.WellFormed) (e : ValidEntry) : (s.upsert e).WellFormed := by
  have hnodup : (s.upsert e).ids.Nodup := by
    rw [ids_upsert]
    split
    · exact h.nodup
    · next hnew => exact h.nodup.append (List.nodup_singleton _) (by simpa using hnew)
  by_cases hmem : e.id ∈ s.ids
  · have hup := upsert_of_mem hmem
    refine ⟨hnodup, fun pair hpair => ?_, fun i x hx => ?_, ?_⟩
    · rw [hup] at hpair
      obtain ⟨i, hi⟩ := List.getElem?_of_mem hpair
      obtain ⟨old, hold, hkey, hid, -⟩ := getElem?_updateIn hi
      rw [hkey, hid]
      exact h.key old (List.mem_of_getElem? hold)
    · rw [hup, toList, List.getElem?_map] at hx
      obtain ⟨pair, hpair, rfl⟩ := Option.map_eq_some_iff.1 hx
      obtain ⟨old, hold, -, -, hseq⟩ := getElem?_updateIn hpair
      rw [hseq]
      exact h.seq i old.2 (by rw [toList, List.getElem?_map, hold]; rfl)
    · rw [size_upsert_of_mem hmem, hup]
      exact h.nextSeq
  · have hup := upsert_of_not_mem hmem
    refine ⟨hnodup, fun pair hpair => ?_, fun i x hx => ?_, ?_⟩
    · rw [hup, List.mem_append, List.mem_singleton] at hpair
      rcases hpair with hold | rfl
      · exact h.key pair hold
      · rfl
    · rw [hup, toList, List.map_append, ← toList, List.getElem?_append] at hx
      split at hx
      · exact h.seq i x hx
      · next hplace =>
        obtain ⟨hi, rfl⟩ : i - s.toList.length = 0 ∧ Entry.ofValid e s.nextSeq = x := by
          simpa [List.getElem?_singleton] using hx
        show s.nextSeq = i
        have hsize : s.toList.length = s.size := by simp [toList, size]
        have hnext := h.nextSeq
        omega
    · rw [hup, size, List.length_append, List.length_singleton, h.nextSeq, size]

/-! ### A list of entries -/

@[simp] theorem applyEntries_nil (s : Surface) : s.applyEntries [] = s := rfl

@[simp] theorem applyEntries_cons (s : Surface) (e : ValidEntry) (rest : List ValidEntry) :
    s.applyEntries (e :: rest) = (s.upsert e).applyEntries rest := rfl

/-- Entries in two groups are applied one group behind the other. -/
theorem applyEntries_append (s : Surface) (xs ys : List ValidEntry) :
    s.applyEntries (xs ++ ys) = (s.applyEntries xs).applyEntries ys := by
  simp [applyEntries]

/-- A well-formed surface stays so under any entries. -/
theorem WellFormed.applyEntries (h : s.WellFormed) (entries : List ValidEntry) :
    (s.applyEntries entries).WellFormed := by
  induction entries generalizing s with
  | nil => exact h
  | cons e rest ih => exact ih (h.upsert e)

/-- What entries make of a surface: which components it has then, in which order, and what they
show. -/
structure LastWins (s : Surface) (entries : List ValidEntry) (next : Surface) : Prop where
  /-- The old identifiers, and then the new ones by first appearance. -/
  ids : next.ids = s.ids ++ ((entries.map (·.id)).filter (· ∉ s.ids)).eraseDups
  once : next.ids.Nodup
  /-- An identifier shows the last entry that has it. -/
  last : ∀ before e after, entries = before ++ e :: after → (∀ later ∈ after, later.id ≠ e.id) →
    ∃ x, next.get? e.id = some x ∧ x.Shows e
  /-- An identifier that no entry has is left alone. -/
  kept : ∀ id, (∀ e ∈ entries, e.id ≠ id) → next.get? id = s.get? id
  seq : ∀ id x, s.get? id = some x → ∃ y, next.get? id = some y ∧ y.seq = x.seq

/-- The ids that are new are put behind the old ones, each once, in the order they first come. -/
theorem ids_applyEntries (s : Surface) (entries : List ValidEntry) :
    (s.applyEntries entries).ids =
      s.ids ++ ((entries.map (·.id)).filter (· ∉ s.ids)).eraseDups := by
  induction entries generalizing s with
  | nil => simp
  | cons e rest ih =>
    rw [applyEntries_cons, ih, ids_upsert, List.map_cons]
    by_cases h : e.id ∈ s.ids
    · rw [if_pos h, List.filter_cons_of_neg (by simpa using h)]
    · rw [if_neg h, List.filter_cons_of_pos (by simpa using h), List.eraseDups_cons,
        List.filter_filter, List.append_assoc, List.singleton_append]
      congr 3
      exact List.filter_congr fun id _ => by by_cases hid : id = e.id <;> simp [hid]

theorem get?_applyEntries_of_ne {entries : List ValidEntry} (h : ∀ e ∈ entries, e.id ≠ id) :
    (s.applyEntries entries).get? id = s.get? id := by
  induction entries generalizing s with
  | nil => rfl
  | cons e rest ih =>
    rw [applyEntries_cons, ih fun later hlater => h later (by simp [hlater])]
    exact get?_upsert_of_ne (h e (by simp)).symm

/-- The last entry with an identifier is shown under it. -/
theorem exists_get?_applyEntries (s : Surface) (before : List ValidEntry)
    {after : List ValidEntry} (h : ∀ later ∈ after, later.id ≠ e.id) :
    ∃ x, (s.applyEntries (before ++ e :: after)).get? e.id = some x ∧ x.Shows e := by
  rw [applyEntries_append, applyEntries_cons, get?_applyEntries_of_ne h]
  exact exists_get?_upsert _ e

/-- What is there stays there and keeps its number. -/
theorem exists_seq_applyEntries {x : Entry} (entries : List ValidEntry) (h : s.get? id = some x) :
    ∃ y, (s.applyEntries entries).get? id = some y ∧ y.seq = x.seq := by
  induction entries generalizing s x with
  | nil => exact ⟨x, h, rfl⟩
  | cons e rest ih =>
    obtain ⟨mid, hmid, hseq⟩ := exists_seq_upsert e h
    obtain ⟨y, hy, hyseq⟩ := ih hmid
    exact ⟨y, hy, hyseq.trans hseq⟩

/-- Of all entries for an id, the last one is shown. -/
theorem WellFormed.lastWins (h : s.WellFormed) (entries : List ValidEntry) :
    LastWins s entries (s.applyEntries entries) where
  ids := ids_applyEntries s entries
  once := (h.applyEntries entries).nodup
  last := by
    rintro before e after rfl hlast
    exact exists_get?_applyEntries s before hlast
  kept _ := get?_applyEntries_of_ne
  seq _ _ := exists_seq_applyEntries entries

/-! ### Runs -/

/-- Some run of operations leads from the empty surface to this one. -/
inductive Reachable : Surface → Prop where
  | new : Reachable {}
  | applyMessage {s : Surface} (h : Reachable s) (v : Validation) : Reachable (s.applyMessage v)
  | applyEntries {s : Surface} (h : Reachable s) (entries : List ValidEntry) :
    Reachable (s.applyEntries entries)
  | applyAll {s : Surface} (h : Reachable s) (messages : List Validation) :
    Reachable (s.applyAll messages)
  | applyRaw {s next : Surface} {catalog : Catalog} {message : Json} {v : Validation}
    (h : Reachable s) (hraw : s.applyRaw catalog message = .ok (next, v)) : Reachable next
  | reset {s : Surface} (h : Reachable s) : Reachable s.reset

/-- A message that was checked is taken in as its valid entries. -/
theorem applyRaw_eq_ok {next : Surface} {catalog : Catalog} {message : Json} {v : Validation} :
    s.applyRaw catalog message = .ok (next, v) ↔
      Update.validate catalog message = .ok v ∧ next = s.applyEntries v.valid := by
  constructor
  · intro h
    obtain ⟨checked, hchecked, h⟩ := Host.bind_eq_ok_iff.1 h
    cases h
    exact ⟨hchecked, rfl⟩
  · rintro ⟨hchecked, rfl⟩
    rw [applyRaw, hchecked]
    rfl

theorem WellFormed.applyAll (h : s.WellFormed) (messages : List Validation) :
    (s.applyAll messages).WellFormed := by
  induction messages generalizing s with
  | nil => exact h
  | cons v rest ih => exact ih (h.applyEntries v.valid)

/-- Every reachable surface is well formed. -/
theorem Reachable.wellFormed (h : Reachable s) : s.WellFormed := by
  induction h with
  | new => exact wellFormed_empty
  | applyMessage _ v ih => exact ih.applyEntries v.valid
  | applyEntries _ entries ih => exact ih.applyEntries entries
  | applyAll _ messages ih => exact ih.applyAll messages
  | applyRaw _ hraw ih =>
    obtain ⟨-, rfl⟩ := applyRaw_eq_ok.1 hraw
    exact ih.applyEntries _
  | reset _ _ => exact wellFormed_empty

/-- **The last entry wins, and the first one gives the place.** -/
theorem last_entry_wins (h : Reachable s) (entries : List ValidEntry) :
    s.WellFormed ∧ LastWins s entries (s.applyEntries entries) :=
  ⟨h.wellFormed, h.wellFormed.lastWins entries⟩

/-- A component of an unknown type is redefined between two entries with a new identifier. -/
theorem last_entry_wins_redefined :
    let note (index : Nat) (data : Json) : ValidEntry := ⟨index, "b", "Note", data, .null, true⟩
    let s := Surface.applyEntries {} [⟨0, "a", "Chart", .null, .null, false⟩]
    let more := [note 0 .null, ⟨1, "a", "Card", .null, .null, true⟩, note 2 (.bool true)]
    Reachable s ∧ s.WellFormed ∧ LastWins s more (s.applyEntries more) ∧
      (s.applyEntries more).entries =
        [("a", ⟨"a", "Card", .null, .null, true, 0⟩),
          ("b", ⟨"b", "Note", .bool true, .null, true, 1⟩)] := by
  intro note s more
  have hs : Reachable s := Reachable.new.applyEntries _
  exact ⟨hs, (last_entry_wins hs more).1, (last_entry_wins hs more).2, rfl⟩

end AgentSurface.Surface
