import AgentSurface.Update.Validation

/-!
# Update — one verdict for each component

The check of a message gives every component one verdict, in the order of the message
(`Judged`), and sorts the verdicts into what passed and what did not (`Validation.ofVerdicts`).  A
verdict bears the index of its component, so the index tells the two lists together again.

* `validateFrom_eq_ok_iff`: what the check of components gives, as verdicts.
* `validateEntry_eq_ok_iff`: what it means for a component that it passed.
* `exists_validate`: validators that never panic give every message a result.
-/

namespace AgentSurface.Update

variable {catalog : Catalog} {index : Nat} {raw : Json} {e : ValidEntry}

/-- What is found out about a component. -/
abbrev Verdict := Except InvalidEntry ValidEntry

/-- The index of the component that a verdict is about. -/
def Verdict.index? : Verdict → Option Nat
  | .ok e => some e.index
  | .error e => e.index

/-! ### One component -/

/-- The options that hold for a payload that passed: what was given is taken as it is if the catalog
does not have the type, and resolved together with the data if it does. -/
def Holds (catalog : Catalog) (typeName : String) (data : Json) (given : Option Json)
    (options : Json) (known : Bool) : Prop :=
  match catalog.get? typeName with
  | none => options = plainOptions given ∧ known = false
  | some entry => checkPayload entry data given = .ok (.ok options) ∧ known = true

/-- What a component that passed was read from. -/
structure ValidEntry.Passes (catalog : Catalog) (index : Nat) (raw : Json) (e : ValidEntry) :
    Prop where
  index : e.index = index
  payload : ∃ payload, shape raw = .ok ⟨e.id, e.typeName, payload⟩ ∧ e.data = dataOf payload ∧
    Holds catalog e.typeName e.data (Json.Fields.get? payload "options") e.options e.known

theorem validateEntry_eq_ok_iff :
    validateEntry catalog index raw = .ok (.ok e) ↔ e.Passes catalog index raw := by
  unfold validateEntry
  constructor
  · intro h
    split at h
    · cases h
    · next s hs =>
      split at h
      · next hnone =>
        cases h
        exact ⟨rfl, s.payload, hs, rfl, by rw [Holds, hnone]; exact ⟨rfl, rfl⟩⟩
      · next entry hentry =>
        obtain ⟨result, hcheck, hresult⟩ := Host.bind_eq_ok_iff.1 h
        cases result with
        | error errors => cases hresult
        | ok options =>
          cases hresult
          exact ⟨rfl, s.payload, hs, rfl, by rw [Holds, hentry]; exact ⟨hcheck, rfl⟩⟩
  · rintro ⟨hindex, payload, hshape, hdata, hholds⟩
    obtain ⟨i, id, typeName, data, options, known⟩ := e
    dsimp only at *
    subst hindex hdata
    rw [hshape]
    unfold Holds at hholds
    split at hholds
    · next hnone =>
      obtain ⟨rfl, rfl⟩ := hholds
      simp only [hnone]
      rfl
    · next entry hentry =>
      obtain ⟨hcheck, rfl⟩ := hholds
      simp only [hentry, hcheck]
      rfl

/-- A component that passed is known when the catalog has its type. -/
theorem Holds.known_eq {typeName : String} {data options : Json} {given : Option Json}
    {known : Bool} (h : Holds catalog typeName data given options known) :
    known = catalog.has typeName := by
  unfold Holds at h
  unfold Catalog.has
  split at h
  · next hnone => rw [h.2, hnone]; rfl
  · next hsome => rw [h.2, hsome]; rfl

/-- A component that did not pass is reported at its own index. -/
theorem index_of_invalid {invalid : InvalidEntry}
    (h : validateEntry catalog index raw = .ok (.error invalid)) : invalid.index = some index := by
  unfold validateEntry at h
  split at h
  · cases h
    rfl
  · split at h
    · cases h
    · obtain ⟨result, -, hresult⟩ := Host.bind_eq_ok_iff.1 h
      cases result with
      | error errors => cases hresult; rfl
      | ok options => cases hresult

/-- A verdict names the place its entry was judged at. -/
theorem index?_of_validateEntry {verdict : Verdict}
    (h : validateEntry catalog index raw = .ok verdict) : verdict.index? = some index := by
  cases verdict with
  | ok e => exact congrArg some (validateEntry_eq_ok_iff.1 h).index
  | error invalid => exact index_of_invalid h

/-! ### The components of a message -/

/-- Each component has its verdict; the first one is at the given place of the message. -/
inductive Judged (catalog : Catalog) : Nat → List Json → List Verdict → Prop where
  | nil {index : Nat} : Judged catalog index [] []
  | cons {index : Nat} {raw : Json} {items : List Json} {verdict : Verdict}
    {verdicts : List Verdict} (h : validateEntry catalog index raw = .ok verdict)
    (hrest : Judged catalog (index + 1) items verdicts) :
    Judged catalog index (raw :: items) (verdict :: verdicts)

/-- Verdicts, sorted into what passed and what did not. -/
def Validation.ofVerdicts (verdicts : List Verdict) : Validation :=
  verdicts.foldr (fun verdict v => v.add verdict) {}

@[simp] theorem Validation.ofVerdicts_cons (verdict : Verdict) (rest : List Verdict) :
    ofVerdicts (verdict :: rest) = (ofVerdicts rest).add verdict := rfl

/-- The valid entries are those with a good verdict. -/
theorem Validation.mem_valid_ofVerdicts {verdicts : List Verdict} :
    e ∈ (ofVerdicts verdicts).valid ↔ .ok e ∈ verdicts := by
  induction verdicts with
  | nil => simp [ofVerdicts]
  | cons verdict rest ih => cases verdict <;> simp [add, ih]

/-- Validating a list gathers one verdict on each of its entries. -/
theorem validateFrom_eq_ok_iff {items : List Json} {v : Validation} :
    validateFrom catalog index items = .ok v ↔
      ∃ verdicts, Judged catalog index items verdicts ∧ v = .ofVerdicts verdicts := by
  induction items generalizing index v with
  | nil =>
    constructor
    · intro h
      cases h
      exact ⟨[], .nil, rfl⟩
    · rintro ⟨_, ⟨⟩, rfl⟩
      rfl
  | cons raw rest ih =>
    constructor
    · intro h
      obtain ⟨verdict, hfirst, h⟩ := Host.bind_eq_ok_iff.1 h
      obtain ⟨later, hlater, h⟩ := Host.bind_eq_ok_iff.1 h
      cases h
      obtain ⟨verdicts, hverdicts, rfl⟩ := ih.1 hlater
      exact ⟨verdict :: verdicts, .cons hfirst hverdicts, rfl⟩
    · rintro ⟨_, hjudged, rfl⟩
      cases hjudged with
      | cons hfirst hrest =>
        rw [validateFrom, hfirst, ih.2 ⟨_, hrest, rfl⟩]
        rfl

/-- There are as many verdicts as entries. -/
theorem Judged.length_eq {items : List Json} {verdicts : List Verdict}
    (h : Judged catalog index items verdicts) : verdicts.length = items.length := by
  induction h with
  | nil => rfl
  | cons _ _ ih => simp [ih]

/-- The verdict at a place is the one about the component there. -/
theorem Judged.exists_getElem? {items : List Json} {verdicts : List Verdict} {i : Nat}
    {verdict : Verdict} (h : Judged catalog index items verdicts)
    (hi : verdicts[i]? = some verdict) :
    ∃ raw, items[i]? = some raw ∧ validateEntry catalog (index + i) raw = .ok verdict := by
  induction h generalizing i with
  | nil => simp at hi
  | cons hfirst _ ih =>
    cases i with
    | zero => cases hi; exact ⟨_, rfl, hfirst⟩
    | succ i =>
      obtain ⟨raw, hraw, hverdict⟩ := ih (by simpa using hi)
      exact ⟨raw, by simpa using hraw, by rw [← hverdict]; congr 1; omega⟩

theorem Judged.index?_getElem? {items : List Json} {verdicts : List Verdict} {i : Nat}
    {verdict : Verdict} (h : Judged catalog index items verdicts)
    (hi : verdicts[i]? = some verdict) : verdict.index? = some (index + i) := by
  obtain ⟨raw, -, hverdict⟩ := h.exists_getElem? hi
  exact index?_of_validateEntry hverdict

/-- The verdicts stand in the order of their indices. -/
theorem Judged.pairwise {items : List Json} {verdicts : List Verdict}
    (h : Judged catalog index items verdicts) :
    verdicts.Pairwise fun a b => ∃ i j, a.index? = some i ∧ b.index? = some j ∧ i < j := by
  rw [List.pairwise_iff_getElem]
  intro i j hi hj hij
  exact ⟨_, _, h.index?_getElem? (List.getElem?_eq_getElem hi),
    h.index?_getElem? (List.getElem?_eq_getElem hj), by omega⟩

/-- A message in which something passed has components, and all of them are judged. -/
theorem exists_judged {message : Json} {v : Validation} (h : validate catalog message = .ok v)
    (hvalid : v.valid ≠ []) :
    ∃ items verdicts, components message = .ok items ∧ Judged catalog 0 items verdicts ∧
      v = .ofVerdicts verdicts := by
  unfold validate at h
  split at h
  · next items hitems =>
    obtain ⟨verdicts, hverdicts, rfl⟩ := validateFrom_eq_ok_iff.1 h
    exact ⟨items, verdicts, hitems, hverdicts, rfl⟩
  · cases h
    exact absurd rfl hvalid

/-- What passed in a message passed as one of its components. -/
theorem exists_passes {message : Json} {v : Validation} (h : validate catalog message = .ok v)
    (he : e ∈ v.valid) : ∃ raw, e.Passes catalog e.index raw := by
  obtain ⟨items, verdicts, -, hjudged, rfl⟩ := exists_judged h (List.ne_nil_of_mem he)
  obtain ⟨i, hi⟩ := List.getElem?_of_mem (Validation.mem_valid_ofVerdicts.1 he)
  obtain ⟨raw, -, hraw⟩ := hjudged.exists_getElem? hi
  have hpasses := validateEntry_eq_ok_iff.1 hraw
  exact ⟨raw, hpasses.index ▸ hpasses⟩

/-- What passed stands in the order of the components. -/
theorem Judged.pairwise_valid {items : List Json} {verdicts : List Verdict}
    (h : Judged catalog index items verdicts) :
    (Validation.ofVerdicts verdicts).valid.Pairwise fun a b => a.index < b.index := by
  have hpairs := h.pairwise
  clear h
  induction verdicts with
  | nil => exact .nil
  | cons verdict rest ih =>
    obtain ⟨hfirst, hrest⟩ := List.pairwise_cons.1 hpairs
    cases verdict with
    | error e => exact ih hrest
    | ok e =>
      refine List.pairwise_cons.2 ⟨fun later hlater => ?_, ih hrest⟩
      obtain ⟨i, j, hi, hj, hij⟩ := hfirst _ (Validation.mem_valid_ofVerdicts.1 hlater)
      cases hi
      cases hj
      exact hij

/-- The valid entries are in the order of the message. -/
theorem pairwise_valid {message : Json} {v : Validation} (h : validate catalog message = .ok v) :
    v.valid.Pairwise fun a b => a.index < b.index := by
  by_cases hvalid : v.valid = []
  · rw [hvalid]
    exact .nil
  · obtain ⟨items, verdicts, -, hjudged, rfl⟩ := exists_judged h hvalid
    exact hjudged.pairwise_valid

/-! ### Validators that never panic -/

/-- Pure checks always give a result. -/
theorem exists_checkPayload {entry : Catalog.Entry} (hpure : entry.Pure) (data : Json)
    (given : Option Json) : ∃ result, checkPayload entry data given = .ok result := by
  obtain ⟨dataErrors, hdata⟩ := hpure.1 data .data
  have hoptions : ∃ options, entry.resolveOptions given = .ok options := by
    unfold Catalog.Entry.resolveOptions
    split
    · exact ⟨_, rfl⟩
    · next merged _ =>
      split
      · exact ⟨_, rfl⟩
      · next validator hvalidator =>
        obtain ⟨errors, herrors⟩ := hpure.2 validator hvalidator (.object merged) .options
        rw [herrors]
        exact ⟨_, rfl⟩
  obtain ⟨options, hoptions⟩ := hoptions
  rw [checkPayload, Catalog.Entry.validateData, hdata, hoptions]
  cases options <;> exact ⟨_, rfl⟩

theorem exists_validateEntry (hpure : catalog.Pure) (index : Nat) (raw : Json) :
    ∃ verdict, validateEntry catalog index raw = .ok verdict := by
  unfold validateEntry
  split
  · exact ⟨_, rfl⟩
  · next s _ =>
    split
    · exact ⟨_, rfl⟩
    · next entry hentry =>
      obtain ⟨result, hresult⟩ :=
        exists_checkPayload (hpure entry (List.mem_of_find?_eq_some hentry))
          (dataOf s.payload) (Json.Fields.get? s.payload "options")
      simp only [hresult]
      cases result <;> exact ⟨_, rfl⟩

theorem exists_validateFrom (hpure : catalog.Pure) (index : Nat) (items : List Json) :
    ∃ v, validateFrom catalog index items = .ok v := by
  induction items generalizing index with
  | nil => exact ⟨_, rfl⟩
  | cons raw rest ih =>
    obtain ⟨verdict, hverdict⟩ := exists_validateEntry hpure index raw
    obtain ⟨later, hlater⟩ := ih (index + 1)
    rw [validateFrom, hverdict, hlater]
    exact ⟨_, rfl⟩

/-- With a pure catalog, every message is validated. -/
theorem exists_validate (hpure : catalog.Pure) (message : Json) :
    ∃ v, validate catalog message = .ok v := by
  unfold validate
  split
  · exact exists_validateFrom hpure 0 _
  · exact ⟨_, rfl⟩

end AgentSurface.Update
