import AgentSurface.Proofs.Json.Fields
import AgentSurface.Proofs.Update.Verdicts

/-!
# Update — which components pass, and what is said about the others

A component in order (`WellShaped`) is an object with a string for its identifier and exactly one
type name, and under that an object.  The identifier and the component are judged apart, so neither
fault hides the other (`formFaults`); the same goes for the data and the options of a component in
order.  `Ruling` lists what the check can come to, and everything about a verdict follows from it.

* `Catalog.Entry.resolveOptions_eq_ok`: the options that hold, or errors, and then at least one.
* `shape_cases`: a component is read if it is in order, and otherwise everything that is wrong with
  it is told.
* `ruling_of_validateEntry`: what the check of a component comes to.
* `validateEntry_exact`: which components pass, what is kept of those, and what is said about the
  others.
-/

namespace AgentSurface.Catalog.Entry

open Schema (FieldError)

/-- The members of the options that were given. -/
def givenFields (given : Option Json) : Json.Fields := (given.bind Json.fields?).getD []

/-- The errors of options that are refused. -/
def optionErrors : Except (List FieldError) Json → List FieldError
  | .ok _ => []
  | .error errors => errors

variable {entry : Entry} {data : Json} {given : Option Json}

/-- Options that pass are the defaults with those given merged in. -/
theorem mergeOptions_eq_ok {merged : Json.Fields} (h : entry.mergeOptions given = .ok merged) :
    merged = entry.defaultOptions.merge (givenFields given) := by
  unfold mergeOptions at h
  split at h <;> cases h <;> rfl

/-- Options that are refused are refused with an error. -/
theorem ne_nil_of_mergeOptions {errors : List FieldError}
    (h : entry.mergeOptions given = .error errors) : errors ≠ [] := by
  unfold mergeOptions at h
  split at h <;> cases h
  exact List.cons_ne_nil _ _

/-- Options are resolved to the given ones over the defaults, or refused for at least one error. -/
theorem resolveOptions_eq_ok {resolved : Except (List FieldError) Json}
    (h : entry.resolveOptions given = .ok resolved) :
    resolved = .ok (.object (entry.defaultOptions.merge (givenFields given))) ∨
      ∃ errors, errors ≠ [] ∧ resolved = .error errors := by
  unfold resolveOptions at h
  split at h
  · next errors hmerge =>
    cases h
    exact .inr ⟨errors, ne_nil_of_mergeOptions hmerge, rfl⟩
  · next merged hmerge =>
    obtain rfl := mergeOptions_eq_ok hmerge
    split at h
    · cases h
      exact .inl rfl
    · obtain ⟨errors, -, h⟩ := Host.bind_eq_ok_iff.1 h
      cases hempty : errors.isEmpty <;> rw [hempty] at h <;> cases h
      · exact .inr ⟨errors, by simpa using hempty, rfl⟩
      · exact .inl rfl

/-- Nothing is reported for the data, and the options are accepted. -/
structure Admits (entry : Entry) (data : Json) (given : Option Json) : Prop where
  data : entry.validateData data = .ok []
  options : ∃ options, entry.resolveOptions given = .ok (.ok options)

/-- What the check of a payload comes to. -/
inductive Checked (entry : Entry) (data : Json) (given : Option Json) :
    Except (List FieldError) Json → Prop where
  | fit (h : entry.Admits data given) : Checked entry data given
      (.ok (.object (entry.defaultOptions.merge (givenFields given))))
  | unfit {dataErrors : List FieldError} {resolved : Except (List FieldError) Json}
    (hdata : entry.validateData data = .ok dataErrors)
    (hoptions : entry.resolveOptions given = .ok resolved)
    (hne : dataErrors ++ optionErrors resolved ≠ []) :
    Checked entry data given (.error (dataErrors ++ optionErrors resolved))

theorem checked_of_checkPayload {result : Except (List FieldError) Json}
    (h : Update.checkPayload entry data given = .ok result) : Checked entry data given result := by
  obtain ⟨dataErrors, hdata, h⟩ := Host.bind_eq_ok_iff.1 h
  obtain ⟨resolved, hoptions, h⟩ := Host.bind_eq_ok_iff.1 h
  obtain rfl | ⟨errors, hne, rfl⟩ := resolveOptions_eq_ok hoptions
  · cases dataErrors with
    | nil =>
      cases h
      exact .fit ⟨hdata, _, hoptions⟩
    | cons error rest =>
      cases h
      simpa [optionErrors] using Checked.unfit hdata hoptions (by simp)
  · cases h
    exact .unfit hdata hoptions (by simp [optionErrors, hne])

end AgentSurface.Catalog.Entry

namespace AgentSurface.Update

open Schema (FieldError)
open Catalog.Entry (givenFields optionErrors)

variable {catalog : Catalog} {index : Nat} {raw : Json}

/-! ### The form -/

/-- A component in order. -/
inductive WellShaped : Json → Shape → Prop where
  | entry {fields payload : Json.Fields} {id typeName : String}
    (hid : Json.Fields.get? fields "id" = some (.string id))
    (hcomponent : Json.Fields.get? fields "component" =
      some (.object [(typeName, .object payload)])) :
    WellShaped (.object fields) ⟨id, typeName, payload⟩

/-- The identifier of a component, if it has one that is a string. -/
def stringId? (raw : Json) : Option String := (raw.get? "id").bind Json.string?

/-- The type name of a component, if it has exactly one. -/
def oneType? (raw : Json) : Option String :=
  match raw.get? "component" with
  | some (.object [(typeName, _)]) => some typeName
  | _ => none

/-- What is wrong with the identifier. -/
def idFaults (fields : Json.Fields) : List EntryFault :=
  match Json.Fields.get? fields "id" with
  | some (.string _) => []
  | _ => [.noId]

/-- What is wrong with the type name and what is under it. -/
def componentFaults (fields : Json.Fields) : List EntryFault :=
  match Json.Fields.get? fields "component" with
  | some (.object [(_, .object _)]) => []
  | some (.object [(typeName, _)]) => [.payloadNotObject typeName]
  | some (.object types) => [.notOneType types.length]
  | _ => [.noComponent]

/-- Everything that is wrong with the form of a component. -/
def formFaults : Json → List EntryFault
  | .object fields => idFaults fields ++ componentFaults fields
  | _ => [.notObject]

theorem idFaults_cases (fields : Json.Fields) :
    (∃ id, Json.Fields.get? fields "id" = some (.string id) ∧ idFaults fields = []) ∨
      ((Json.Fields.get? fields "id").bind Json.string? = none ∧ idFaults fields = [.noId]) := by
  unfold idFaults
  split
  · next id hid => exact .inl ⟨id, hid, rfl⟩
  · next hid =>
    refine .inr ⟨Option.bind_eq_none_iff.2 fun v hv => ?_, rfl⟩
    cases v with
    | string id => exact absurd hv (hid id)
    | _ => rfl

/-- The type name as it is read, against what is wrong with it. -/
theorem componentFaults_cases (fields : Json.Fields) :
    (∃ typeName payload, Json.Fields.get? fields "component" =
        some (.object [(typeName, .object payload)]) ∧ componentFaults fields = []) ∨
      (∃ typeName payload, typeOf fields = .ok (typeName, payload) ∧ payload.fields? = none ∧
        oneType? (.object fields) = some typeName ∧
        componentFaults fields = [.payloadNotObject typeName]) ∨
      ∃ fault, typeOf fields = .error fault ∧ oneType? (.object fields) = none ∧
        componentFaults fields = [fault] := by
  have hget : (Json.object fields).get? "component" = Json.Fields.get? fields "component" := rfl
  unfold typeOf oneType? componentFaults
  rw [hget]
  match Json.Fields.get? fields "component" with
  | some (.object [(typeName, payload)]) =>
    cases payload with
    | object payload => exact .inl ⟨typeName, payload, rfl, rfl⟩
    | _ => exact .inr (.inl ⟨typeName, _, rfl, rfl, rfl, rfl⟩)
  | some (.object ((_, payload) :: _ :: _)) =>
    exact .inr (.inr ⟨_, rfl, rfl, by cases payload <;> rfl⟩)
  | some (.object []) | none | some .null | some (.bool _) | some (.number _) | some (.string _)
  | some (.array _) => exact .inr (.inr ⟨_, rfl, rfl, rfl⟩)

/-- A component in order is read; of any other one everything that is wrong is told. -/
theorem shape_cases (raw : Json) :
    (∃ s, WellShaped raw s ∧ shape raw = .ok s ∧ formFaults raw = []) ∨
      (shape raw = .error (stringId? raw, oneType? raw, formFaults raw) ∧ formFaults raw ≠ []) := by
  cases raw with
  | object fields =>
    have hid? : stringId? (.object fields) =
        (Json.Fields.get? fields "id").bind Json.string? := rfl
    rw [shape, hid?]
    obtain ⟨id, hid, hidFaults⟩ | ⟨hid, hidFaults⟩ := idFaults_cases fields
    -- With an identifier, the faults are those of the component.
    · obtain ⟨typeName, payload, hone, hfaults⟩ |
        ⟨typeName, payload, htype, hpayload, hone, hfaults⟩ | ⟨fault, htype, hnone, hfaults⟩ :=
        componentFaults_cases fields
      · exact .inl ⟨_, .entry hid hone, by simp [hid, typeOf, hone, Json.string?],
          by simp [formFaults, hidFaults, hfaults]⟩
      · cases payload with
        | object _ => cases hpayload
        | _ => exact .inr ⟨by simp [hid, htype, hone, Json.string?, formFaults, hidFaults, hfaults],
            by simp [formFaults, hfaults]⟩
      · exact .inr ⟨by simp [hid, htype, hnone, Json.string?, formFaults, hidFaults, hfaults],
          by simp [formFaults, hfaults]⟩
    -- Without one, that fault comes first.
    · refine .inr ⟨?_, by simp [formFaults, hidFaults]⟩
      obtain ⟨typeName, payload, hone, hfaults⟩ |
        ⟨typeName, payload, htype, hpayload, hone, hfaults⟩ | ⟨fault, htype, hnone, hfaults⟩ :=
        componentFaults_cases fields
      · have honeType : oneType? (.object fields) = some typeName := by
          simp [oneType?, Json.get?, Json.fields?, hone]
        simp [hid, typeOf, hone, honeType, formFaults, hidFaults, hfaults]
      · cases payload with
        | object _ => cases hpayload
        | _ => simp [hid, htype, hone, formFaults, hidFaults, hfaults]
      · simp [hid, htype, hnone, formFaults, hidFaults, hfaults]
  | _ => exact .inr ⟨rfl, List.cons_ne_nil _ _⟩

/-- An entry that is well shaped is read with its shape. -/
theorem WellShaped.shape_eq {s : Shape} (h : WellShaped raw s) : shape raw = .ok s := by
  obtain ⟨hid, hcomponent⟩ := h
  simp [shape, typeOf, hid, hcomponent, Json.string?]

theorem WellShaped.unique {s s' : Shape} (h : WellShaped raw s) (h' : WellShaped raw s') :
    s = s' := by
  have heq := h.shape_eq.symm.trans h'.shape_eq
  cases heq
  rfl

/-- Faults of the form are told below the anchor. -/
theorem EntryFault.error_tells (a : Json.Segment) (fault : EntryFault) :
    (fault.error a).kind = .structural ∧ (fault.error a).target = .entry ∧
      (fault.error a).path.head? = some a :=
  ⟨rfl, rfl, rfl⟩

/-! ### Verdicts -/

/-- What the check of a component can come to. -/
inductive Ruling (catalog : Catalog) (index : Nat) (raw : Json) : Verdict → Prop where
  | misshapen (h : formFaults raw ≠ []) : Ruling catalog index raw
      (.error ⟨some index, stringId? raw, oneType? raw, raw,
        (formFaults raw).map (EntryFault.error (anchor index (stringId? raw)))⟩)
  | unknown {s : Shape} (hs : WellShaped raw s) (hnone : catalog.get? s.typeName = none) :
    Ruling catalog index raw
      (.ok ⟨index, s.id, s.typeName, dataOf s.payload,
        .object (givenFields (Json.Fields.get? s.payload "options")), false⟩)
  | fit {s : Shape} {entry : Catalog.Entry} (hs : WellShaped raw s)
    (hentry : catalog.get? s.typeName = some entry)
    (hadmits : entry.Admits (dataOf s.payload) (Json.Fields.get? s.payload "options")) :
    Ruling catalog index raw
      (.ok ⟨index, s.id, s.typeName, dataOf s.payload, .object (entry.defaultOptions.merge
        (givenFields (Json.Fields.get? s.payload "options"))), true⟩)
  | unfit {s : Shape} {entry : Catalog.Entry} {dataErrors : List FieldError}
    {resolved : Except (List FieldError) Json} (hs : WellShaped raw s)
    (hentry : catalog.get? s.typeName = some entry)
    (hdata : entry.validateData (dataOf s.payload) = .ok dataErrors)
    (hoptions : entry.resolveOptions (Json.Fields.get? s.payload "options") = .ok resolved)
    (hne : dataErrors ++ optionErrors resolved ≠ []) :
    Ruling catalog index raw (.error ⟨some index, some s.id, some s.typeName, raw,
      dataErrors ++ optionErrors resolved⟩)

theorem plainOptions_eq (given : Option Json) :
    plainOptions given = .object (givenFields given) := by
  unfold plainOptions
  split
  · rfl
  · next hnot =>
    match given with
    | some (.object fields) => exact absurd rfl (hnot fields)
    | none | some .null | some (.bool _) | some (.number _) | some (.string _) | some (.array _) =>
      rfl

/-- Every verdict is a ruling on its entry. -/
theorem ruling_of_validateEntry {verdict : Verdict}
    (h : validateEntry catalog index raw = .ok verdict) : Ruling catalog index raw verdict := by
  obtain ⟨s, hs, hok, -⟩ | ⟨herror, hne⟩ := shape_cases raw
  · simp only [validateEntry, hok] at h
    split at h
    · next hnone =>
      cases h
      rw [plainOptions_eq]
      exact .unknown hs hnone
    · next entry hentry =>
      obtain ⟨result, hcheck, h⟩ := Host.bind_eq_ok_iff.1 h
      cases Catalog.Entry.checked_of_checkPayload hcheck with
      | fit hadmits =>
        cases h
        exact .fit hs hentry hadmits
      | unfit hdata hoptions hne =>
        cases h
        exact .unfit hs hentry hdata hoptions hne
  · simp only [validateEntry, herror] at h
    cases h
    exact .misshapen hne

/-! ### What passes, and what does not -/

/-- The component is in order, and if its type is in the catalog, its data and options are admitted
there. -/
def Acceptable (catalog : Catalog) (raw : Json) : Prop :=
  ∃ s, WellShaped raw s ∧ ∀ entry, catalog.get? s.typeName = some entry →
    entry.Admits (dataOf s.payload) (Json.Fields.get? s.payload "options")

/-- What is kept of a component that passed. -/
structure ValidEntry.Keeps (catalog : Catalog) (index : Nat) (raw : Json) (e : ValidEntry) :
    Prop where
  index : e.index = index
  known : e.known = catalog.has e.typeName
  payload : ∃ payload, WellShaped raw ⟨e.id, e.typeName, payload⟩ ∧ e.data = dataOf payload ∧
    (catalog.get? e.typeName = none →
      e.options = .object (givenFields (Json.Fields.get? payload "options"))) ∧
    ∀ entry, catalog.get? e.typeName = some entry → ∃ options : Json.Fields,
      e.options = .object options ∧
      options = entry.defaultOptions.merge (givenFields (Json.Fields.get? payload "options")) ∧
      ∀ key, options.get? key =
        (Json.Fields.get? (givenFields (Json.Fields.get? payload "options")).reverse key).or
          (entry.defaultOptions.get? key)

/-- The errors are those of the form, told from the identifier or else from the index. -/
structure InvalidEntry.TellsForm (index : Nat) (raw : Json) (e : InvalidEntry) : Prop where
  errors : e.errors = (formFaults raw).map (EntryFault.error (anchor index (stringId? raw)))
  each : ∀ error ∈ e.errors, error.kind = .structural ∧ error.target = .entry ∧
    error.path.head? = some (anchor index (stringId? raw))

/-- The component is in order and its type in the catalog; the errors are those of the data and
then those of the options. -/
def InvalidEntry.TellsPayload (catalog : Catalog) (raw : Json) (e : InvalidEntry) : Prop :=
  ∃ s entry dataErrors resolved, WellShaped raw s ∧ catalog.get? s.typeName = some entry ∧
    entry.validateData (dataOf s.payload) = .ok dataErrors ∧
    entry.resolveOptions (Json.Fields.get? s.payload "options") = .ok resolved ∧
    e.errors = dataErrors ++ optionErrors resolved

/-- A ruling is good exactly where the entry is acceptable. -/
theorem Ruling.exists_ok_iff {verdict : Verdict} (h : Ruling catalog index raw verdict) :
    (∃ e, verdict = .ok e) ↔ Acceptable catalog raw := by
  cases h with
  | misshapen hne =>
    refine ⟨fun ⟨_, h⟩ => (nomatch h), fun ⟨s, hs, _⟩ => ?_⟩
    obtain ⟨_, _, _, hnil⟩ | ⟨herror, -⟩ := shape_cases raw
    · exact absurd hnil hne
    · rw [hs.shape_eq] at herror
      cases herror
  | unknown hs hnone =>
    refine ⟨fun _ => ⟨_, hs, fun entry hentry => ?_⟩, fun _ => ⟨_, rfl⟩⟩
    rw [hnone] at hentry
    cases hentry
  | fit hs hentry hadmits =>
    refine ⟨fun _ => ⟨_, hs, fun other hother => ?_⟩, fun _ => ⟨_, rfl⟩⟩
    rw [hentry] at hother
    cases hother
    exact hadmits
  | unfit hs hentry hdata hoptions hne =>
    refine ⟨fun ⟨_, h⟩ => (nomatch h), fun ⟨s, hs', hall⟩ => absurd ?_ hne⟩
    obtain rfl := hs.unique hs'
    obtain ⟨hdata', options, hoptions'⟩ := hall _ hentry
    rw [hdata] at hdata'
    rw [hoptions] at hoptions'
    cases hdata'
    cases hoptions'
    rfl

theorem Ruling.not_acceptable {e : InvalidEntry} (h : Ruling catalog index raw (.error e)) :
    ¬ Acceptable catalog raw := by
  intro hraw
  obtain ⟨_, hok⟩ := h.exists_ok_iff.2 hraw
  cases hok

/-- A good ruling keeps what the entry says. -/
theorem Ruling.keeps {e : ValidEntry} (h : Ruling catalog index raw (.ok e)) :
    e.Keeps catalog index raw := by
  cases h with
  | unknown hs hnone =>
    refine ⟨rfl, by simp [Catalog.has, hnone], _, hs, rfl, fun _ => rfl, fun entry hentry => ?_⟩
    rw [hnone] at hentry
    cases hentry
  | fit hs hentry _ =>
    refine ⟨rfl, by simp [Catalog.has, hentry], _, hs, rfl, fun hnone => ?_, fun other hother => ?_⟩
    · rw [hentry] at hnone
      cases hnone
    · rw [hentry] at hother
      cases hother
      exact ⟨_, rfl, rfl, Json.Fields.get?_merge _ _⟩

/-- A bad ruling keeps the entry and tells what is wrong with its form or its payload. -/
theorem Ruling.tells {e : InvalidEntry} (h : Ruling catalog index raw (.error e)) :
    e.entry = raw ∧ e.errors ≠ [] ∧ (e.TellsForm index raw ∨ e.TellsPayload catalog raw) := by
  cases h with
  | misshapen hne =>
    refine ⟨rfl, by simpa using hne, .inl ⟨rfl, fun error herror => ?_⟩⟩
    obtain ⟨fault, -, rfl⟩ := List.mem_map.1 herror
    exact fault.error_tells _
  | unfit hs hentry hdata hoptions hne =>
    exact ⟨rfl, hne, .inr ⟨_, _, _, _, hs, hentry, hdata, hoptions, rfl⟩⟩

/-- **Exactly the components in order pass, and of the others every failing part is told.**  With
validators that never panic, a component passes if and only if it is in order and, where its type is
in the catalog, nothing is reported for its data and its options are accepted.  What passed keeps
what was read, with the options laid over the default options.  What did not pass is kept as it
came, with at least one error: either all that is wrong with its form, or the errors of its data and
then those of its options. -/
theorem validateEntry_exact (hpure : catalog.Pure) (index : Nat) (raw : Json) :
    ∃ verdict, validateEntry catalog index raw = .ok verdict ∧
      ((∃ e, verdict = .ok e) ↔ Acceptable catalog raw) ∧
      (∀ e, verdict = .ok e → e.Keeps catalog index raw) ∧
      ∀ e, verdict = .error e → e.entry = raw ∧ e.errors ≠ [] ∧
        (e.TellsForm index raw ∨ e.TellsPayload catalog raw) := by
  obtain ⟨verdict, hverdict⟩ := exists_validateEntry hpure index raw
  have hruling := ruling_of_validateEntry hverdict
  refine ⟨verdict, hverdict, hruling.exists_ok_iff, ?_, ?_⟩
  · rintro e rfl
    exact hruling.keeps
  · rintro e rfl
    exact hruling.tells

/-- The options are told to be wrong even though the data are wrong already. -/
theorem validateEntry_exact_both_wrong :
    let catalog : Catalog := ⟨[
      { typeName := "Card", purpose := ""
        data := .ofFunction fun _ _ => [⟨.schema, .data, [], "too short"⟩] }]⟩
    let raw : Json := .object [("id", .string "a"),
      ("component", .object [("Card", .object [("options", .bool true)])])]
    catalog.Pure ∧ ¬ Acceptable catalog raw ∧
      ∃ e, validateEntry catalog 3 raw = .ok (.error e) ∧ e.entry = raw ∧
        e.errors.map (·.target) = [.data, .options] := by
  intro catalog raw
  have hpure : catalog.Pure := by
    simp [catalog, Catalog.Pure, Catalog.Entry.Pure, Schema.Validator.Pure,
      Schema.Validator.ofFunction]
  obtain ⟨verdict, hverdict, haccepted, -, htells⟩ := validateEntry_exact hpure 3 raw
  cases hverdict
  exact ⟨hpure, fun h => (nomatch haccepted.2 h), _, rfl, (htells _ rfl).1, rfl⟩

end AgentSurface.Update
