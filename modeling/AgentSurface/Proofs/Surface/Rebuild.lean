import AgentSurface.Proofs.Json.Fields
import AgentSurface.Proofs.Surface.Reducer
import AgentSurface.Proofs.Update.Verdicts

/-!
# Surface — a surface is rebuilt from what it shows

The components of a surface, written as the components of a message (`Surface.message`), pass the
check of the catalog that let them in: data that were accepted are accepted again, and options that
the defaults were merged into keep their members when the defaults are merged into them once more
(`resolveOptions_again`).  Taken into the empty surface, they come to the same places with the same
numbers.

* `rebuilds`: the message of a surface leads from the empty surface back to it.
-/

namespace AgentSurface

/-! ### Options that were resolved -/

namespace Catalog

/-- The default options of an entry are the members of an object: no key stands twice. -/
def DistinctDefaults (c : Catalog) : Prop := ∀ entry ∈ c.entries, entry.defaultOptions.keys.Nodup

namespace Entry

variable {entry : Entry} {given : Option Json}

/-- Merged options are merged again to themselves. -/
theorem mergeOptions_again (h : entry.defaultOptions.keys.Nodup) {merged : Json.Fields}
    (hmerged : entry.mergeOptions given = .ok merged) :
    entry.mergeOptions (some (.object merged)) = .ok merged := by
  have hdefaults : entry.defaultOptions.merge entry.defaultOptions = entry.defaultOptions :=
    Json.Fields.merge_of_isPrefix List.prefix_rfl h
  have hagain : entry.defaultOptions.merge merged = merged := by
    unfold mergeOptions at hmerged
    split at hmerged
    · cases hmerged
      exact hdefaults
    · cases hmerged
      exact hdefaults
    · cases hmerged
      exact Json.Fields.merge_merge h _
    · cases hmerged
  rw [mergeOptions, hagain]

/-- **Options that hold are options to give**, and the same ones hold then. -/
theorem resolveOptions_again (h : entry.defaultOptions.keys.Nodup) {options : Json}
    (hoptions : entry.resolveOptions given = .ok (.ok options)) :
    entry.resolveOptions (some options) = .ok (.ok options) := by
  unfold resolveOptions at hoptions
  split at hoptions
  · cases hoptions
  · next merged hmerged =>
    have hobject : options = .object merged := by
      split at hoptions
      · cases hoptions
        rfl
      · obtain ⟨errors, -, hresult⟩ := Host.bind_eq_ok_iff.1 hoptions
        split at hresult <;> cases hresult
        rfl
    subst hobject
    rw [resolveOptions, mergeOptions_again h hmerged]
    exact hoptions

end Entry
end Catalog

namespace Update

variable {entry : Catalog.Entry} {data options : Json} {given : Option Json}

/-- A payload that was accepted is accepted with the options that hold for it. -/
theorem checkPayload_again (h : entry.defaultOptions.keys.Nodup)
    (hcheck : checkPayload entry data given = .ok (.ok options)) :
    checkPayload entry data (some options) = .ok (.ok options) := by
  obtain ⟨dataErrors, hdata, hcheck⟩ := Host.bind_eq_ok_iff.1 hcheck
  obtain ⟨resolved, hresolved, hcheck⟩ := Host.bind_eq_ok_iff.1 hcheck
  cases resolved with
  | error errors => cases hcheck
  | ok held =>
    have hheld : held = options := by
      dsimp only at hcheck
      split at hcheck <;> cases hcheck
      rfl
    subst hheld
    rw [checkPayload, hdata, Catalog.Entry.resolveOptions_again h hresolved]
    exact hcheck

theorem dataOf_ne_null (payload : Json.Fields) : dataOf payload ≠ .null := by
  unfold dataOf Json.emptyObject
  split
  · simp
  · simp
  · next hnull _ => exact hnull

theorem exists_plainOptions (given : Option Json) :
    ∃ fields, plainOptions given = .object fields := by
  unfold plainOptions
  split <;> exact ⟨_, rfl⟩

/-- **What holds for a payload holds for the options that hold.** -/
theorem Holds.again {catalog : Catalog} {typeName : String} {known : Bool}
    (hcatalog : catalog.DistinctDefaults) (h : Holds catalog typeName data given options known) :
    Holds catalog typeName data (some options) options known := by
  unfold Holds at h ⊢
  split at h
  · obtain ⟨rfl, hknown⟩ := h
    obtain ⟨fields, hfields⟩ := exists_plainOptions given
    exact ⟨by rw [hfields]; rfl, hknown⟩
  · next entry hentry =>
    exact ⟨checkPayload_again (hcatalog entry (List.mem_of_find?_eq_some hentry)) h.1, h.2⟩

end Update

namespace Surface

open Update (ValidEntry Validation)

variable {catalog : Catalog} {s : Surface}

/-! ### The message of a surface -/

/-- The message with the components of a surface, in order. -/
def message (s : Surface) : Json :=
  .object [(Update.updateKey,
    .object [(Update.componentsKey, .array (s.toList.map Entry.component))])]

/-- The component as the check of a message gives it. -/
def Entry.valid (x : Entry) (index : Nat) : ValidEntry :=
  { index, id := x.id, typeName := x.typeName, data := x.data, options := x.options,
    known := x.known }

/-- The component given for an entry has the shape of its id, type, data and options. -/
theorem shape_component (x : Entry) :
    Update.shape x.component =
      .ok ⟨x.id, x.typeName, [("data", x.data), ("options", x.options)]⟩ := by
  simp [Entry.component, Update.shape, Update.typeOf, Json.Fields.get?, Json.string?]

/-- What passed once passes again in the form in which a surface shows it. -/
theorem passes_component (hcatalog : catalog.DistinctDefaults) {i : Nat} {raw : Json}
    {e : ValidEntry} (he : e.Passes catalog i raw) {x : Entry} (hx : x.Shows e) (index : Nat) :
    (x.valid index).Passes catalog index x.component := by
  obtain ⟨payload, -, hdata, hholds⟩ := he.payload
  refine ⟨rfl, _, shape_component x, ?_, ?_⟩
  · have hnull : x.data ≠ .null := by
      rw [hx.data, hdata]
      exact Update.dataOf_ne_null payload
    simp [Entry.valid, Update.dataOf, Json.Fields.get?]
  · show Update.Holds catalog x.typeName x.data (some x.options) x.options x.known
    rw [hx.typeName, hx.data, hx.options, hx.known]
    exact hholds.again hcatalog

/-! ### Surfaces that one catalog has let in -/

/-- Checked messages lead from the empty surface to this one. -/
inductive Grown (catalog : Catalog) : Surface → Prop where
  | new : Grown catalog {}
  | applyRaw {s next : Surface} {message : Json} {v : Validation} (h : Grown catalog s)
    (hraw : s.applyRaw catalog message = .ok (next, v)) : Grown catalog next

/-- A surface grown from messages is reachable. -/
theorem Grown.reachable (h : Grown catalog s) : Reachable s := by
  induction h with
  | new => exact .new
  | applyRaw _ hraw ih => exact ih.applyRaw hraw

/-- Every component of the surface passes the check as the surface shows it. -/
def Recheckable (catalog : Catalog) (s : Surface) : Prop :=
  ∀ x ∈ s.toList, ∀ index, (x.valid index).Passes catalog index x.component

/-- After an update, an entry is one that was there or shows what was put in. -/
theorem mem_updateIn {e : ValidEntry} {entries : List (String × Entry)} {pair : String × Entry}
    (h : pair ∈ updateIn e entries) : pair ∈ entries ∨ pair.2.Shows e := by
  induction entries with
  | nil => exact .inl h
  | cons first rest ih =>
    simp only [updateIn] at h
    split at h
    · rcases List.mem_cons.1 h with rfl | h
      · exact .inr (first.2.shows_update e)
      · exact .inl (List.mem_cons_of_mem _ h)
    · rcases List.mem_cons.1 h with rfl | h
      · exact .inl List.mem_cons_self
      · exact (ih h).imp_left (List.mem_cons_of_mem _)

/-- Behind an entry, a component was there before or shows the entry. -/
theorem mem_toList_upsert {e : ValidEntry} {x : Entry} (hx : x ∈ (s.upsert e).toList) :
    x ∈ s.toList ∨ x.Shows e := by
  obtain ⟨pair, hpair, rfl⟩ := List.mem_map.1 hx
  unfold upsert at hpair
  split at hpair
  · exact (mem_updateIn hpair).imp_left fun hold => List.mem_map.2 ⟨pair, hold, rfl⟩
  · rcases List.mem_append.1 hpair with hold | hnew
    · exact .inl (List.mem_map.2 ⟨pair, hold, rfl⟩)
    · cases List.mem_singleton.1 hnew
      exact .inr (Entry.shows_ofValid e _)

theorem Recheckable.applyEntries (hcatalog : catalog.DistinctDefaults)
    (h : s.Recheckable catalog) {entries : List ValidEntry}
    (hentries : ∀ e ∈ entries, ∃ raw, e.Passes catalog e.index raw) :
    (s.applyEntries entries).Recheckable catalog := by
  induction entries generalizing s with
  | nil => exact h
  | cons e rest ih =>
    refine ih (fun x hx index => ?_) fun later hlater => hentries later (by simp [hlater])
    rcases mem_toList_upsert hx with hold | hshows
    · exact h x hold index
    · obtain ⟨raw, he⟩ := hentries e (by simp)
      exact passes_component hcatalog he hshows index

/-- Every entry of a grown surface passes its own check again. -/
theorem Grown.recheckable (hcatalog : catalog.DistinctDefaults) (h : Grown catalog s) :
    s.Recheckable catalog := by
  induction h with
  | new => exact fun x hx => absurd hx List.not_mem_nil
  | applyRaw _ hraw ih =>
    obtain ⟨hv, rfl⟩ := applyRaw_eq_ok.1 hraw
    exact ih.applyEntries hcatalog fun e he => Update.exists_passes hv he

/-! ### Back to the surface -/

/-- The components of a surface as the check of its message gives them, the first at a place. -/
def validFrom (index : Nat) : List Entry → List ValidEntry
  | [] => []
  | x :: rest => x.valid index :: validFrom (index + 1) rest

theorem judged_components {entries : List Entry}
    (h : ∀ x ∈ entries, ∀ index, (x.valid index).Passes catalog index x.component) (index : Nat) :
    Update.Judged catalog index (entries.map Entry.component)
      ((validFrom index entries).map .ok) := by
  induction entries generalizing index with
  | nil => exact .nil
  | cons x rest ih =>
    exact .cons (Update.validateEntry_eq_ok_iff.2 (h x (by simp) index))
      (ih (fun y hy => h y (by simp [hy])) (index + 1))

/-- Verdicts that are all good make a validation with nothing invalid. -/
theorem ofVerdicts_map_ok (entries : List ValidEntry) :
    Validation.ofVerdicts (entries.map .ok) = { valid := entries } := by
  induction entries with
  | nil => rfl
  | cons e rest ih => rw [List.map_cons, Validation.ofVerdicts_cons, ih]; rfl

/-- The message of a surface passes as a whole. -/
theorem Recheckable.validate_message (h : s.Recheckable catalog) :
    Update.validate catalog s.message = .ok { valid := validFrom 0 s.toList } := by
  have hcomponents : Update.components s.message = .ok (s.toList.map Entry.component) := by
    simp [message, Update.components, Json.Fields.get?]
  rw [Update.validate, hcomponents, ← ofVerdicts_map_ok]
  exact Update.validateFrom_eq_ok_iff.2 ⟨_, judged_components h 0, rfl⟩

/-- Entries that are numbered on from the surface, under keys that it does not have, are joined to
it. -/
theorem applyEntries_validFrom {entries : List (String × Entry)}
    (hkey : ∀ pair ∈ entries, pair.2.id = pair.1)
    (hseq : ∀ (i : Nat) (x : Entry), (entries.map (·.2))[i]? = some x → x.seq = s.nextSeq + i)
    (hnodup : (s.ids ++ entries.map (·.1)).Nodup) (index : Nat) :
    s.applyEntries (validFrom index (entries.map (·.2))) =
      { entries := s.entries ++ entries, nextSeq := s.nextSeq + entries.length } := by
  induction entries generalizing s index with
  | nil => simp [validFrom]
  | cons pair rest ih =>
    obtain ⟨key, x⟩ := pair
    obtain rfl : x.id = key := hkey _ List.mem_cons_self
    have hx : x.seq = s.nextSeq := hseq 0 x rfl
    have hnew : (x.valid index).id ∉ s.ids := fun hmem =>
      (List.nodup_append.1 hnodup).2.2 _ hmem _ List.mem_cons_self rfl
    have hup : s.upsert (x.valid index) =
        { entries := s.entries ++ [(x.id, x)], nextSeq := s.nextSeq + 1 } := by
      rw [upsert_of_not_mem hnew, ← hx]
      rfl
    rw [List.map_cons, validFrom, applyEntries_cons, hup, ih]
    · simp [Nat.add_assoc, Nat.add_comm 1]
    · exact fun pair hpair => hkey pair (List.mem_cons_of_mem _ hpair)
    · intro i y hy
      have hnext := hseq (i + 1) y hy
      show y.seq = s.nextSeq + 1 + i
      omega
    · simpa [ids] using hnodup

/-- **A surface is rebuilt from its own message**: all of it passes, and leads from the empty surface
to the same components in the same order with the same numbers. -/
theorem rebuilds (hcatalog : catalog.DistinctDefaults) (h : Grown catalog s) :
    ∃ v, Surface.applyRaw {} catalog s.message = .ok (s, v) ∧ v.invalid = [] := by
  have hwell : s.WellFormed := h.reachable.wellFormed
  refine ⟨_, applyRaw_eq_ok.2 ⟨(h.recheckable hcatalog).validate_message, ?_⟩, rfl⟩
  have hjoined := applyEntries_validFrom (s := {}) hwell.key
    (fun i x hx => by rw [hwell.seq i x hx]; exact (Nat.zero_add i).symm)
    (by simpa [ids] using hwell.nodup) 0
  show s = _
  rw [show s.toList = s.entries.map (·.2) from rfl, hjoined]
  obtain ⟨entries, nextSeq⟩ := s
  have hnext : nextSeq = entries.length := hwell.nextSeq
  simp [hnext]

/-- A type that the catalog does not have, with options that are no object, and a type with options
under a default key and under a new one. -/
theorem rebuilds_odd_options :
    let catalog : Catalog := ⟨[
      { typeName := "Card", purpose := "", data := .ofFunction fun _ _ => []
        defaultOptions := [("tone", .string "info"), ("wide", .bool true)] }]⟩
    let s : Surface :=
      { entries := [
          ("b", ⟨"b", "Chart", .object [], .object [], false, 0⟩),
          ("a", ⟨"a", "Card", .object [],
            .object [("tone", .string "info"), ("wide", .null), ("size", .null)], true, 1⟩)]
        nextSeq := 2 }
    catalog.DistinctDefaults ∧ Grown catalog s ∧
      ∃ v, Surface.applyRaw {} catalog s.message = .ok (s, v) ∧ v.invalid = [] := by
  intro catalog s
  let chart : Json := .object [("data", .null), ("options", .bool true)]
  let card : Json := .object [("options", .object [("size", .null), ("wide", .null)])]
  let sent : Json := .object [("surfaceUpdate", .object [("components", .array [
    .object [("id", .string "b"), ("component", .object [("Chart", chart)])],
    .object [("id", .string "a"), ("component", .object [("Card", card)])]])])]
  have hcatalog : catalog.DistinctDefaults := by
    simp [catalog, Catalog.DistinctDefaults, Json.Fields.keys]
  have hs : Grown catalog s :=
    Grown.new.applyRaw (show Surface.applyRaw {} catalog sent = _ from rfl)
  exact ⟨hcatalog, hs, rebuilds hcatalog hs⟩

end Surface
end AgentSurface
