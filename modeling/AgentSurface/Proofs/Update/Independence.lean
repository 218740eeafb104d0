import AgentSurface.Proofs.Update.Verdicts

/-!
# Update — components do not influence each other

The place of a component is told in its verdict twice: as the index, and at the beginning of the
errors of a component that has no identifier.  A component that is checked at a later place has the
same verdict with these moved (`Verdict.shift`), whatever stands before it.

* `components_eq_ok_iff`: which messages carry components.
* `validateEntry_shift`: a component at a later place.
* `Judged.append`, `Judged.covers`: the verdicts of a list of components.
* `verdicts_independent`: the verdicts of two lists are those of each, and every component has
  exactly one.
-/

namespace AgentSurface.Update

open Schema (FieldError)

variable {catalog : Catalog} {index : Nat} {raw : Json}

/-! ### Messages with components -/

/-- The message is an object with an object under the outermost key, and that has these components
under its key. -/
inductive Carries : Json → List Json → Prop where
  | message {fields update : Json.Fields} {items : List Json}
    (hupdate : Json.Fields.get? fields updateKey = some (.object update))
    (hitems : Json.Fields.get? update componentsKey = some (.array items)) :
    Carries (.object fields) items

/-- The components are found exactly in a message that carries them. -/
theorem components_eq_ok_iff {message : Json} {items : List Json} :
    components message = .ok items ↔ Carries message items := by
  constructor
  · intro h
    unfold components at h
    split at h
    · split at h
      · next hupdate =>
        split at h
        · next hitems =>
          cases h
          exact .message hupdate hitems
        · cases h
      · cases h
    · cases h
  · rintro ⟨hupdate, hitems⟩
    simp only [components, hupdate, hitems]

/-- A message that carries no components is rejected as a whole. -/
theorem validate_of_not_carries {message : Json} (h : ∀ items, ¬ Carries message items) :
    ∃ fault, validate catalog message = .ok (rejected message fault) := by
  unfold validate
  split
  · next items hitems => exact absurd (components_eq_ok_iff.1 hitems) (h items)
  · next fault _ => exact ⟨fault, rfl⟩

/-! ### Verdicts at later places -/

/-- An index at the beginning of a path is moved. -/
def shiftPath (n : Nat) : Json.Path → Json.Path
  | .index i :: rest => .index (i + n) :: rest
  | path => path

/-- An error with the place it names moved on. -/
def shiftError (n : Nat) (e : FieldError) : FieldError := { e with path := shiftPath n e.path }

/-- A valid entry at a later place. -/
def ValidEntry.shift (n : Nat) (e : ValidEntry) : ValidEntry := { e with index := e.index + n }

/-- Without an identifier the errors are told from the index, which is moved there as well. -/
def InvalidEntry.shift (n : Nat) (e : InvalidEntry) : InvalidEntry :=
  { e with
    index := e.index.map (· + n)
    errors := if e.id.isNone then e.errors.map (shiftError n) else e.errors }

/-- A verdict on an entry at a later place. -/
def Verdict.shift (n : Nat) : Verdict → Verdict
  | .ok e => .ok (e.shift n)
  | .error e => .error (e.shift n)

theorem shiftError_error (n : Nat) (fault : EntryFault) :
    shiftError n (fault.error (anchor index none)) = fault.error (anchor (index + n) none) := rfl

/-- **The place of a component does not change its verdict**, except where the place is told. -/
theorem validateEntry_shift (n : Nat) :
    validateEntry catalog (index + n) raw =
      (validateEntry catalog index raw).map (Verdict.shift n) := by
  unfold validateEntry
  split
  · next id typeName faults _ =>
    cases id with
    | some id => rfl
    | none =>
      have herrors : (faults.map (EntryFault.error (anchor index none))).map (shiftError n) =
          faults.map (EntryFault.error (anchor (index + n) none)) := by
        rw [List.map_map]
        exact List.map_congr_left fun fault _ => shiftError_error n fault
      rw [← herrors]
      rfl
  · next s _ =>
    cases catalog.get? s.typeName with
    | none => rfl
    | some entry =>
      dsimp only
      cases checkPayload entry (dataOf s.payload) (Json.Fields.get? s.payload "options") with
      | error panic => rfl
      | ok result => cases result <;> rfl

/-! ### The verdicts of a list -/

/-- Entries are judged alike at a later place, with their verdicts moved on. -/
theorem Judged.shift {items : List Json} {verdicts : List Verdict}
    (h : Judged catalog index items verdicts) (n : Nat) :
    Judged catalog (index + n) items (verdicts.map (Verdict.shift n)) := by
  induction h with
  | nil => exact .nil
  | @cons index _ _ _ _ hfirst _ ih =>
    refine .cons (by rw [validateEntry_shift, hfirst]; rfl) ?_
    rwa [Nat.add_right_comm]

/-- Entries in two groups are judged one group behind the other. -/
theorem Judged.append {xs ys : List Json} {vs ws : List Verdict} (hx : Judged catalog index xs vs)
    (hy : Judged catalog (index + xs.length) ys ws) :
    Judged catalog index (xs ++ ys) (vs ++ ws) := by
  induction hx with
  | nil => exact hy
  | cons hfirst _ ih =>
    refine .cons hfirst (ih ?_)
    rwa [Nat.add_assoc, Nat.add_comm 1]

namespace Validation

/-- A validation with all its entries at a later place. -/
def shift (n : Nat) (v : Validation) : Validation :=
  ⟨v.valid.map (ValidEntry.shift n), v.invalid.map (InvalidEntry.shift n)⟩

/-- What passed in one and then in the other, and what did not. -/
instance : Append Validation where
  append v w := ⟨v.valid ++ w.valid, v.invalid ++ w.invalid⟩

theorem add_append (v w : Validation) (verdict : Verdict) :
    v.add verdict ++ w = (v ++ w).add verdict := by
  cases verdict <;> rfl

/-- Verdicts in two groups are gathered as the two validations joined. -/
theorem ofVerdicts_append (xs ys : List Verdict) :
    ofVerdicts (xs ++ ys) = ofVerdicts xs ++ ofVerdicts ys := by
  induction xs with
  | nil => rfl
  | cons verdict rest ih =>
    rw [List.cons_append, ofVerdicts_cons, ofVerdicts_cons, ih, add_append]

/-- Verdicts that are moved on gather to the validation moved on. -/
theorem ofVerdicts_shift (n : Nat) (verdicts : List Verdict) :
    ofVerdicts (verdicts.map (Verdict.shift n)) = (ofVerdicts verdicts).shift n := by
  induction verdicts with
  | nil => rfl
  | cons verdict rest ih =>
    rw [List.map_cons, ofVerdicts_cons, ofVerdicts_cons, ih]
    cases verdict <;> rfl

/-- Each of these places has one verdict, and both what passed and what did not stand in order. -/
def Covers (v : Validation) (places : List Nat) : Prop :=
  ∃ rejected : List Nat, v.invalid.map (·.index) = rejected.map some ∧
    (v.valid.map (·.index)).Pairwise (· < ·) ∧ rejected.Pairwise (· < ·) ∧
    (v.valid.map (·.index) ++ rejected).Perm places

end Validation

/-- A list of components has a verdict for each place from the first one on. -/
theorem Judged.covers {items : List Json} {verdicts : List Verdict}
    (h : Judged catalog index items verdicts) :
    (Validation.ofVerdicts verdicts).Covers (List.range' index items.length) := by
  induction h with
  | nil => exact ⟨[], rfl, .nil, .nil, .nil⟩
  | @cons index raw items verdict verdicts hfirst _ ih =>
    obtain ⟨rejected, hinvalid, hvalid, hrejected, hperm⟩ := ih
    have hlater : ∀ i ∈ (Validation.ofVerdicts verdicts).valid.map (·.index) ++ rejected,
        index < i := by
      intro i hi
      have hrange := hperm.mem_iff.1 hi
      rw [List.mem_range'_1] at hrange
      omega
    obtain ⟨hlaterValid, hlaterRejected⟩ := List.forall_mem_append.1 hlater
    have hindex := index?_of_validateEntry hfirst
    rw [List.length_cons, List.range'_succ]
    -- The first place is the least of all, on whichever side its verdict stands.
    cases verdict with
    | ok e =>
      obtain rfl : e.index = index := Option.some.inj hindex
      exact ⟨rejected, hinvalid, List.pairwise_cons.2 ⟨hlaterValid, hvalid⟩, hrejected,
        hperm.cons _⟩
    | error e =>
      refine ⟨index :: rejected, ?_, hvalid, List.pairwise_cons.2 ⟨hlaterRejected, hrejected⟩,
        List.perm_middle.trans (hperm.cons _)⟩
      exact List.cons_eq_cons.2 ⟨hindex, hinvalid⟩

theorem exists_judged_of_carries (hpure : catalog.Pure) {message : Json} {items : List Json}
    (h : Carries message items) : ∃ verdicts, Judged catalog 0 items verdicts ∧
      validate catalog message = .ok (.ofVerdicts verdicts) := by
  obtain ⟨v, hv⟩ := exists_validate hpure message
  rw [validate, components_eq_ok_iff.2 h] at hv ⊢
  obtain ⟨verdicts, hjudged, rfl⟩ := validateFrom_eq_ok_iff.1 hv
  exact ⟨verdicts, hjudged, hv⟩

/-- **Each component has one verdict, and components do not influence each other.**  With validators
that never panic, a message with components has one verdict for each of them, in order; a message
with the components of two others has the verdicts of the first and then those of the second, moved
by the number of components of the first; and any other message is rejected as a whole, with one
error at its root. -/
theorem verdicts_independent (hpure : catalog.Pure) :
    (∀ message items, Carries message items →
      ∃ v, validate catalog message = .ok v ∧ v.Covers (List.range items.length)) ∧
    (∀ first second both xs ys, Carries first xs → Carries second ys → Carries both (xs ++ ys) →
      ∃ v w, validate catalog first = .ok v ∧ validate catalog second = .ok w ∧
        validate catalog both = .ok (v ++ w.shift xs.length)) ∧
    ∀ message, (∀ items, ¬ Carries message items) →
      ∃ error : FieldError, error.path = [] ∧ validate catalog message =
        .ok ⟨[], [⟨none, none, none, message, [error]⟩]⟩ := by
  refine ⟨fun message items h => ?_, fun first second both xs ys hx hy hboth => ?_,
    fun message h => ?_⟩
  · obtain ⟨verdicts, hjudged, hv⟩ := exists_judged_of_carries hpure h
    refine ⟨_, hv, ?_⟩
    rw [List.range_eq_range']
    exact hjudged.covers
  · obtain ⟨vs, hvs, hv⟩ := exists_judged_of_carries hpure hx
    obtain ⟨ws, hws, hw⟩ := exists_judged_of_carries hpure hy
    have hjudged : Judged catalog 0 (xs ++ ys) (vs ++ ws.map (Verdict.shift xs.length)) :=
      hvs.append (hws.shift xs.length)
    have hall := validateFrom_eq_ok_iff.2 ⟨_, hjudged, rfl⟩
    refine ⟨_, _, hv, hw, ?_⟩
    rw [validate, components_eq_ok_iff.2 hboth]
    dsimp only
    rw [hall, Validation.ofVerdicts_append, Validation.ofVerdicts_shift]
  · obtain ⟨fault, hfault⟩ : ∃ fault, validate catalog message = .ok (rejected message fault) :=
      validate_of_not_carries h
    exact ⟨_, rfl, hfault⟩

/-- The error of the component without an identifier is moved with it; the path that the validator
gives begins with an index too, and stays. -/
theorem verdicts_independent_no_identifier :
    let catalog : Catalog := ⟨[
      { typeName := "Card", purpose := ""
        data := .ofFunction fun _ _ => [⟨.schema, .data, [.index 0], "too long"⟩] }]⟩
    let card : Json := .object [("Card", .object [])]
    let xs : List Json := [.object [("id", .string "a"), ("component", card)]]
    let ys : List Json := [.object [("component", card)], .object [("id", .string "b"),
      ("component", card)]]
    let sent (items : List Json) : Json :=
      .object [("surfaceUpdate", .object [("components", .array items)])]
    catalog.Pure ∧ ∃ v w, validate catalog (sent xs) = .ok v ∧ validate catalog (sent ys) = .ok w ∧
      validate catalog (sent (xs ++ ys)) = .ok (v ++ w.shift 1) ∧
      (w.shift 1).invalid.map (fun e => (e.index, e.errors.map (·.path))) =
        [(some 1, [[.index 1]]), (some 2, [[.index 0]])] := by
  intro catalog card xs ys sent
  have hpure : catalog.Pure := by
    simp [catalog, Catalog.Pure, Catalog.Entry.Pure, Schema.Validator.Pure,
      Schema.Validator.ofFunction]
  have hcarries : ∀ items, Carries (sent items) items := fun items => .message rfl rfl
  obtain ⟨-, happend, -⟩ := verdicts_independent hpure
  obtain ⟨v, w, hv, hw, hboth⟩ := happend _ _ _ xs ys (hcarries xs) (hcarries ys) (hcarries _)
  refine ⟨hpure, v, w, hv, hw, hboth, ?_⟩
  cases hw
  rfl

end AgentSurface.Update
