import AgentSurface.Proofs.Render.Folding

/-!
# Render — blocks and surfaces show the same

A component is shown twice: inside the view of its block, from the fresh check of the message, and
on the surface, from what the surface keeps.

A message that was checked is shown verdict by verdict, in the order of its components
(`validation_ofVerdicts`).  Blocks that are folded into a surface are shown as they are without one,
and the surface takes in the valid entries of all blocks, one after the other
(`exists_intoSurfaceFrom`); so the last entry with an identifier is the one that the surface shows.

* `surface_agrees`: for every identifier in a valid entry, the last such entry is shown on the surface
  as in its block; all other components of the surface are shown as before, in the same order.
-/

namespace AgentSurface.Render

open Update (ValidEntry Validation Verdict Judged)

variable {bs : Bindings} {catalog : Catalog} {message : Json} {s : Surface} {id : String}

/-! ### A message, component by component -/

/-- What a verdict is shown as. -/
def verdictView (catalog : Catalog) (message : Json) : Verdict → View
  | .ok e => validEntry catalog message e
  | .error e => invalidEntry e

/-- The view of a verdict with the place of its component. -/
def placed (catalog : Catalog) (message : Json) (verdict : Verdict) : Option Nat × View :=
  (verdict.index?, verdictView catalog message verdict)

/-- Sorting the verdicts into two lists loses none of their views. -/
theorem perm_placed (catalog : Catalog) (message : Json) (verdicts : List Verdict) :
    ((Validation.ofVerdicts verdicts).valid.map
        (fun e => (some e.index, validEntry catalog message e)) ++
      (Validation.ofVerdicts verdicts).invalid.map (fun e => (e.index, invalidEntry e))).Perm
      (verdicts.map (placed catalog message)) := by
  induction verdicts with
  | nil => exact .nil
  | cons verdict rest ih =>
    cases verdict with
    | ok e => exact ih.cons _
    | error e => exact List.perm_middle.trans (ih.cons _)

theorem before_trans (a b c : Option Nat × View) (hab : before a b = true)
    (hbc : before b c = true) : before a c = true := by
  obtain ⟨i, _⟩ := a
  obtain ⟨j, _⟩ := b
  obtain ⟨k, _⟩ := c
  cases i <;> cases j <;> cases k <;> simp_all [before]
  omega

theorem before_total (a b : Option Nat × View) : (before a b || before b a) = true := by
  obtain ⟨i, _⟩ := a
  obtain ⟨j, _⟩ := b
  cases i <;> cases j <;> simp [before]
  omega

/-- **A checked message is shown component by component.** -/
theorem validation_ofVerdicts {index : Nat} {items : List Json} {verdicts : List Verdict}
    (h : Judged catalog index items verdicts) :
    validation catalog message (.ofVerdicts verdicts) =
      .fragment (verdicts.map (verdictView catalog message)) := by
  have hperm := (List.mergeSort_perm _ before).trans (perm_placed catalog message verdicts)
  -- Verdicts with one index are one verdict, so the order of the indices is the only one.
  have hunique : ∀ a b, a ∈ verdicts.map (placed catalog message) →
      b ∈ verdicts.map (placed catalog message) → before a b = true → before b a = true →
      a = b := by
    intro a b ha hb hab hba
    obtain ⟨u, hu, rfl⟩ := List.mem_map.1 ha
    obtain ⟨w, hw, rfl⟩ := List.mem_map.1 hb
    obtain ⟨i, hi⟩ := List.getElem?_of_mem hu
    obtain ⟨j, hj⟩ := List.getElem?_of_mem hw
    have hij : i = j := by
      simp only [placed, before, h.index?_getElem? hi, h.index?_getElem? hj,
        decide_eq_true_eq] at hab hba
      omega
    subst hij
    rw [Option.some.inj (hi.symm.trans hj)]
  have hsorted : (verdicts.map (placed catalog message)).Pairwise fun a b => before a b = true := by
    refine List.Pairwise.map _ (fun u w huw => ?_) h.pairwise
    obtain ⟨i, j, hi, hj, hij⟩ := huw
    simp only [placed, before, hi, hj, decide_eq_true_eq]
    omega
  have heq := hperm.eq_of_pairwise (fun a b ha hb => hunique a b (hperm.subset ha) hb)
    (List.pairwise_mergeSort before_trans before_total _) hsorted
  rw [validation, heq, List.map_map]
  rfl

/-- The block of a message shows the views of its verdicts. -/
theorem block_ofVerdicts {items : List Json} {verdicts : List Verdict}
    (h : Update.Judged bs.catalog 0 items verdicts)
    (hv : Update.validate bs.catalog message = .ok (Validation.ofVerdicts verdicts)) (place : Nat)
    (text : String) : block bs place (.update message text) =
      .fragment (verdicts.map (verdictView bs.catalog message)) := by
  rw [block, blockContent, hv]
  exact validation_ofVerdicts h

/-- The child at the index of a valid entry is its view. -/
theorem exists_child {v : Validation} (hv : Update.validate catalog message = .ok v)
    {e : ValidEntry} (he : e ∈ v.valid) :
    ∃ children, validation catalog message v = .fragment children ∧
      children[e.index]? = some (validEntry catalog message e) := by
  obtain ⟨items, verdicts, -, hjudged, rfl⟩ := Update.exists_judged hv (List.ne_nil_of_mem he)
  obtain ⟨i, hi⟩ := List.getElem?_of_mem (Validation.mem_valid_ofVerdicts.1 he)
  have hindex : e.index = 0 + i := Option.some.inj (hjudged.index?_getElem? hi)
  refine ⟨_, validation_ofVerdicts hjudged, ?_⟩
  rw [List.getElem?_map, hindex, Nat.zero_add, hi]
  rfl

theorem getElem?_blocksFrom (bs : Bindings) (index : Nat) (list : List Stream.Block) (b : Nat) :
    (blocksFrom bs index list)[b]? = (list[b]?).map (block bs (index + b)) := by
  induction list generalizing index b with
  | nil => rfl
  | cons first rest ih =>
    cases b with
    | zero => rfl
    | succ b =>
      rw [blocksFrom, List.getElem?_cons_succ, List.getElem?_cons_succ, ih]
      congr 2
      omega

/-! ### The last entry with an identifier -/

/-- The block at a place carries a valid entry. -/
def CarriesAt (catalog : Catalog) (list : List Stream.Block) (b : Nat) (e : ValidEntry) : Prop :=
  ∃ message raw v, list[b]? = some (.update message raw) ∧
    Update.validate catalog message = .ok v ∧ e ∈ v.valid

/-- The block at a place carries a valid entry, and no later component of this block and no later
block has one with its identifier. -/
structure CarriesLast (catalog : Catalog) (list : List Stream.Block) (b : Nat) (e : ValidEntry) :
    Prop where
  carries : CarriesAt catalog list b e
  last : ∀ b' e', CarriesAt catalog list b' e' → e'.id = e.id →
    b' < b ∨ (b' = b ∧ e'.index ≤ e.index)

theorem carriesAt_iff {list : List Stream.Block} {carried : List (List ValidEntry)}
    (h : List.Forall₂ (Carried catalog) list carried) {b : Nat} {e : ValidEntry} :
    CarriesAt catalog list b e ↔ ∃ entries, carried[b]? = some entries ∧ e ∈ entries := by
  induction h generalizing b with
  | nil => simp [CarriesAt]
  | @cons block entries list carried hblock _ ih =>
    cases b with
    | succ b => simpa [CarriesAt] using ih (b := b)
    | zero =>
      constructor
      · rintro ⟨message, raw, v, hb, hv, he⟩
        cases hb
        obtain ⟨v', hv', rfl⟩ := hblock
        cases hv.symm.trans hv'
        exact ⟨_, rfl, he⟩
      · rintro ⟨entries', hentries, he⟩
        cases hentries
        cases block with
        | update message raw =>
          obtain ⟨v, hv, rfl⟩ := hblock
          exact ⟨message, raw, v, rfl, hv, he⟩
        | text _ | jsx _ _ | fault _ _ _ =>
          cases hblock
          exact absurd he List.not_mem_nil

theorem exists_last {α : Type} (P : α → Prop) (list : List α) :
    (∀ x ∈ list, ¬ P x) ∨
      ∃ before x after, list = before ++ x :: after ∧ P x ∧ ∀ y ∈ after, ¬ P y := by
  induction list with
  | nil => exact .inl (by simp)
  | cons first rest ih =>
    rcases ih with hnone | ⟨before, x, after, rfl, hx, hafter⟩
    · by_cases hfirst : P first
      · exact .inr ⟨[], first, rest, rfl, hfirst, hnone⟩
      · exact .inl fun x hx => (List.mem_cons.1 hx).elim (fun h => h ▸ hfirst) (hnone x)
    · exact .inr ⟨first :: before, x, after, rfl, hx, hafter⟩

/-- The valid entries of a block stand in the order of its components. -/
theorem Carried.pairwise {b : Stream.Block} {entries : List ValidEntry}
    (h : Carried catalog b entries) : entries.Pairwise fun x y => x.index < y.index := by
  cases b with
  | update message raw =>
    obtain ⟨v, hv, rfl⟩ := h
    exact Update.pairwise_valid hv
  | text _ | jsx _ _ | fault _ _ _ =>
    cases h
    exact .nil

theorem pairwise_of_carried {list : List Stream.Block} {carried : List (List ValidEntry)}
    (h : List.Forall₂ (Carried catalog) list carried) {entries : List ValidEntry}
    (hentries : entries ∈ carried) : entries.Pairwise fun x y => x.index < y.index := by
  induction h with
  | nil => cases hentries
  | cons hblock _ ih =>
    rcases List.mem_cons.1 hentries with rfl | hentries
    · exact hblock.pairwise
    · exact ih hentries

/-- An identifier in some valid entry is in a last one. -/
theorem exists_carriesLast {list : List Stream.Block} {carried : List (List ValidEntry)}
    (hcarried : List.Forall₂ (Carried catalog) list carried) {b : Nat} {e : ValidEntry}
    (h : CarriesAt catalog list b e) :
    ∃ b' e', CarriesLast catalog list b' e' ∧ e'.id = e.id := by
  obtain ⟨entries, hentries, he⟩ := (carriesAt_iff hcarried).1 h
  rcases exists_last (fun entries => ∃ x ∈ entries, x.id = e.id) carried with
    hnone | ⟨earlier, entries, later, rfl, ⟨x, hx, hxid⟩, hlater⟩
  · exact absurd ⟨e, he, rfl⟩ (hnone _ (List.mem_of_getElem? hentries))
  rcases exists_last (fun x => x.id = e.id) entries with
    hnone | ⟨before, last, after, rfl, hlast, hafter⟩
  · exact absurd hxid (hnone x hx)
  refine ⟨earlier.length, last, ⟨(carriesAt_iff hcarried).2 ⟨before ++ last :: after, by simp,
    by simp⟩, fun b' e' he' hid => ?_⟩, hlast⟩
  obtain ⟨entries', hentries', hmem⟩ := (carriesAt_iff hcarried).1 he'
  rcases Nat.lt_trichotomy b' earlier.length with hlt | rfl | hgt
  · exact .inl hlt
  · refine .inr ⟨rfl, ?_⟩
    rw [List.getElem?_append_right (Nat.le_refl _), Nat.sub_self] at hentries'
    cases hentries'
    have hpairs := pairwise_of_carried hcarried (List.mem_append_right earlier List.mem_cons_self)
    rcases List.mem_append.1 hmem with hbefore | hbehind
    · exact Nat.le_of_lt ((List.pairwise_append.1 hpairs).2.2 e' hbefore last List.mem_cons_self)
    · rcases List.mem_cons.1 hbehind with rfl | hbehind
      · exact Nat.le_refl _
      · exact absurd (hid.trans hlast) (hafter e' hbehind)
  · have hin : entries' ∈ later := by
      obtain ⟨k, rfl⟩ : ∃ k, b' = earlier.length + (k + 1) := ⟨b' - earlier.length - 1, by omega⟩
      rw [List.getElem?_append_right (Nat.le_add_right _ _), Nat.add_sub_cancel_left,
        List.getElem?_cons_succ] at hentries'
      exact List.mem_of_getElem? hentries'
    exact absurd ⟨e', hmem, hid.trans hlast⟩ (hlater entries' hin)

/-- Behind the last entry with an identifier no block carries the identifier again. -/
theorem CarriesLast.exists_flatten {list : List Stream.Block} {carried : List (List ValidEntry)}
    (hcarried : List.Forall₂ (Carried catalog) list carried) {b : Nat} {e : ValidEntry}
    (h : CarriesLast catalog list b e) :
    ∃ before after, carried.flatten = before ++ e :: after ∧ ∀ x ∈ after, x.id ≠ e.id := by
  obtain ⟨entries, hentries, he⟩ := (carriesAt_iff hcarried).1 h.carries
  obtain ⟨before, after, rfl⟩ := List.append_of_mem he
  obtain ⟨hb, hget⟩ := List.getElem?_eq_some_iff.1 hentries
  have hsplit : carried = carried.take b ++ (before ++ e :: after) :: carried.drop (b + 1) := by
    rw [← hget, ← List.drop_eq_getElem_cons hb, List.take_append_drop]
  refine ⟨(carried.take b).flatten ++ before, after ++ (carried.drop (b + 1)).flatten, ?_,
    fun x hx hid => ?_⟩
  · conv_lhs => rw [hsplit]
    simp
  · rcases List.mem_append.1 hx with hsame | hlater
    · have hcarries : CarriesAt catalog list b x :=
        (carriesAt_iff hcarried).2 ⟨_, hentries, by simp [hsame]⟩
      have hpairs := pairwise_of_carried hcarried (List.mem_of_getElem? hentries)
      have hlt := (List.pairwise_cons.1 (List.pairwise_append.1 hpairs).2.1).1 x hsame
      rcases h.last b x hcarries hid with hbb | ⟨-, hle⟩ <;> omega
    · obtain ⟨entries', hentries', hmem⟩ := List.mem_flatten.1 hlater
      obtain ⟨k, hk⟩ := List.getElem?_of_mem hentries'
      rw [List.getElem?_drop] at hk
      have hcarries : CarriesAt catalog list (b + 1 + k) x :=
        (carriesAt_iff hcarried).2 ⟨entries', hk, hmem⟩
      rcases h.last _ x hcarries hid with hbb | ⟨hbb, -⟩ <;> omega

/-! ### The views of a surface -/

/-- The view that a surface shows for an identifier. -/
def viewOf (bs : Bindings) (s : Surface) (id : String) : Option View :=
  (s.ids.zip (surface bs s)).lookup id

theorem viewOf_eq (bs : Bindings) (s : Surface) (id : String) :
    viewOf bs s id = (s.get? id).map (surfaceEntry bs) := by
  obtain ⟨entries, nextSeq⟩ := s
  simp only [viewOf, Surface.ids, surface, Surface.toList, Surface.get?]
  induction entries with
  | nil => rfl
  | cons first rest ih =>
    by_cases hid : first.1 = id
    · simp [hid]
    · have hbeq : (id == first.1) = false := by simpa using Ne.symm hid
      simpa [List.lookup_cons, hbeq, hid] using ih

/-- The view says that the type of a component is unknown. -/
def SaysUnknown (id typeName : String) (v : View) : Prop :=
  ∃ raw, v = .fallback (.unknownType id typeName raw)

/-- What stands on a surface is shown like the entry that put it there. -/
theorem surfaceEntry_eq {x : Surface.Entry} {e : ValidEntry} (hid : x.id = e.id)
    (hx : x.Shows e) :
    surfaceEntry bs x =
      component bs.catalog ⟨e.id, e.typeName, e.data, e.options⟩ e.known x.component := by
  rw [surfaceEntry, isolate, hid, hx.typeName, hx.data, hx.options, hx.known]

/-- What is known is shown without regard to what it was read from. -/
theorem component_of_has {props : Catalog.ComponentProps} (h : catalog.has props.typeName = true)
    (raw raw' : Json) : component catalog props true raw = component catalog props true raw' := by
  obtain ⟨entry, hentry⟩ := Option.isSome_iff_exists.1 h
  simp only [component, hentry, if_true]

theorem saysUnknown_component (catalog : Catalog) (props : Catalog.ComponentProps) (raw : Json) :
    SaysUnknown props.id props.typeName (component catalog props false raw) := by
  unfold component
  split <;> exact ⟨raw, rfl⟩

/-- The component of an entry is shown alike in its block and on the surface: by one view if its type
is known, and as a fallback for this identifier and type if not. -/
structure ShownAlike (bs : Bindings) (nodes : List View) (next : Surface) (b : Nat)
    (e : ValidEntry) : Prop where
  child : ∃ children child onSurface, nodes[b]? = some (.fragment children) ∧
    children[e.index]? = some child ∧ viewOf bs next e.id = some onSurface ∧
    (bs.catalog.has e.typeName = true → onSurface = child) ∧
    (bs.catalog.has e.typeName = false →
      SaysUnknown e.id e.typeName child ∧ SaysUnknown e.id e.typeName onSurface)

/-- **Blocks and surface agree.** -/
theorem surface_agrees (hpure : bs.catalog.Pure) (list : List Stream.Block)
    (hs : Surface.Reachable s) :
    ∃ nodes next, intoSurface bs list s = .ok (nodes, next) ∧
      (∀ b e, CarriesAt bs.catalog list b e →
        ∃ b' e', CarriesLast bs.catalog list b' e' ∧ e'.id = e.id) ∧
      (∀ b e, CarriesLast bs.catalog list b e → ShownAlike bs nodes next b e) ∧
      (∀ id ∈ s.ids, (∀ b e, CarriesAt bs.catalog list b e → e.id ≠ id) →
        viewOf bs next id = viewOf bs s id) ∧
      s.ids <+: next.ids := by
  obtain ⟨carried, hcarried, hfold⟩ := exists_intoSurfaceFrom hpure list 0 s
  have hwins := hs.wellFormed.lastWins carried.flatten
  refine ⟨_, _, hfold, fun b e => exists_carriesLast hcarried, fun b e he => ?_,
    fun id hid hnot => ?_, ?_⟩
  · obtain ⟨message, raw, v, hb, hv, hmem⟩ := he.carries
    obtain ⟨children, hchildren, hchild⟩ := exists_child hv hmem
    obtain ⟨before, after, hflatten, hafter⟩ := he.exists_flatten hcarried
    obtain ⟨x, hx, hshows⟩ := hwins.last before e after hflatten hafter
    have hid : x.id = e.id := (hs.wellFormed.applyEntries _).id_of_get? hx
    obtain ⟨read, hpasses⟩ := Update.exists_passes hv hmem
    obtain ⟨payload, -, -, hholds⟩ := hpasses.payload
    have hknown := hholds.known_eq
    have hblock : (blocksFrom bs 0 list)[b]? = some (.fragment children) := by
      rw [getElem?_blocksFrom, hb, ← hchildren]
      simp [block, blockContent, hv, isolate, bind, Except.bind, pure, Except.pure]
    refine ⟨children, _, _, hblock, hchild, by rw [viewOf_eq, hx]; rfl, fun hhas => ?_,
      fun hhas => ?_⟩
    · rw [surfaceEntry_eq hid hshows, validEntry, hknown, hhas]
      exact component_of_has hhas _ _
    · rw [surfaceEntry_eq hid hshows, validEntry, hknown, hhas]
      exact ⟨saysUnknown_component _ _ _, saysUnknown_component _ _ _⟩
  · rw [viewOf_eq, viewOf_eq, hwins.kept id fun e he => ?_]
    obtain ⟨entries, hentries, hmem⟩ := List.mem_flatten.1 he
    obtain ⟨b, hb⟩ := List.getElem?_of_mem hentries
    exact hnot b e ((carriesAt_iff hcarried).2 ⟨entries, hb, hmem⟩)
  · rw [hwins.ids]
    exact List.prefix_append _ _

/-- A type whose render function panics, an unknown type under the same identifier, and a surface with
a component of its own. -/
theorem surface_agrees_panic :
    let bs : Bindings := { catalog := ⟨[
      { typeName := "Card", purpose := "", data := .ofFunction fun _ _ => []
        render := some fun _ => Host.panic (some "boom") }]⟩ }
    let sent (typeName : String) : Json :=
      .object [("surfaceUpdate", .object [("components", .array [
        .object [("id", .string "a"), ("component", .object [(typeName, .object [])])]])])]
    let list : List Stream.Block :=
      [.update (sent "Card") "", .text "Hi", .update (sent "Chart") ""]
    let s := Surface.applyEntries {} [⟨0, "old", "Card", .object [], .object [], true⟩]
    bs.catalog.Pure ∧ s.Reachable ∧ ∃ nodes next, intoSurface bs list s = .ok (nodes, next) ∧
      (∃ b e, CarriesLast bs.catalog list b e ∧ e.id = "a" ∧ ShownAlike bs nodes next b e) ∧
      ["old"] <+: next.ids := by
  intro bs sent list s
  have hpure : bs.catalog.Pure := by
    simp [bs, Catalog.Pure, Catalog.Entry.Pure, Schema.Validator.Pure, Schema.Validator.ofFunction]
  have hs : s.Reachable := Surface.Reachable.new.applyEntries _
  obtain ⟨nodes, next, hfold, hlast, hagree, -, hids⟩ := surface_agrees hpure list hs
  have hcarries : CarriesAt bs.catalog list 0 ⟨0, "a", "Card", .object [], .object [], true⟩ :=
    ⟨sent "Card", "", _, rfl, rfl, List.mem_singleton.2 rfl⟩
  obtain ⟨b, e, he, hid⟩ := hlast _ _ hcarries
  exact ⟨hpure, hs, nodes, next, hfold, ⟨b, e, he, hid, hagree b e he⟩, hids⟩

end AgentSurface.Render
