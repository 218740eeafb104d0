import AgentSurface.Update.Validation

/-!
# Catalog — payloads that are checked

A payload is checked by the validators of its type: the data by one, and the options, laid over the
default options, by another if the type has one.  What passes is taken by both (`Entry.Takes`), and
only a validator can stop the check in a panic (`Entry.Panics`).
-/

namespace AgentSurface.Catalog

/-! ### What a type takes -/

/-- The validators of the type find nothing wrong with these data and options. -/
structure Entry.Takes (entry : Entry) (data options : Json) : Prop where
  data : entry.validateData data = .ok []
  options : ∀ validator, entry.options = some validator → validator.check options .options = .ok []

/-- The type is in the catalog, and takes these data and options. -/
def Takes (catalog : Catalog) (typeName : String) (data options : Json) : Prop :=
  ∃ entry, catalog.get? typeName = some entry ∧ entry.Takes data options

theorem Entry.check_of_resolveOptions {entry : Entry} {given : Option Json} {options : Json}
    (h : entry.resolveOptions given = .ok (.ok options)) {validator : Schema.Validator}
    (hvalidator : entry.options = some validator) : validator.check options .options = .ok [] := by
  unfold resolveOptions at h
  split at h
  · cases h
  · rw [hvalidator] at h
    obtain ⟨errors, herrors, h⟩ := Host.bind_eq_ok_iff.1 h
    split at h
    · next hnone =>
      cases h
      rw [herrors, List.isEmpty_iff.1 hnone]
    · cases h

/-- What passed the check of a payload is taken by the validators. -/
theorem Entry.takes_of_checkPayload {entry : Entry} {data : Json} {given : Option Json}
    {options : Json} (h : Update.checkPayload entry data given = .ok (.ok options)) :
    entry.Takes data options := by
  obtain ⟨errors, hdata, h⟩ := Host.bind_eq_ok_iff.1 h
  obtain ⟨result, hoptions, h⟩ := Host.bind_eq_ok_iff.1 h
  cases result with
  | error more => cases h
  | ok found =>
    dsimp only at h
    split at h
    · next hnone =>
      cases h
      exact ⟨by rw [hdata, List.isEmpty_iff.1 hnone], fun _ => check_of_resolveOptions hoptions⟩
    · cases h

/-! ### Panics -/

/-- A validator of the type stops in this panic. -/
def Entry.Panics (entry : Entry) (panic : Panic) : Prop :=
  (∃ data, entry.validateData data = .error panic) ∨
    ∃ validator options, entry.options = some validator ∧
      validator.check options .options = .error panic

/-- A validator of one of the types stops in this panic. -/
def Panics (catalog : Catalog) (panic : Panic) : Prop :=
  ∃ entry ∈ catalog.entries, entry.Panics panic

theorem Entry.panics_of_resolveOptions {entry : Entry} {given : Option Json} {panic : Panic}
    (h : entry.resolveOptions given = .error panic) : entry.Panics panic := by
  unfold resolveOptions at h
  split at h
  · cases h
  · split at h
    · cases h
    · next validator hvalidator =>
      rcases Host.bind_eq_error_iff.1 h with h | ⟨errors, -, h⟩
      · exact .inr ⟨validator, _, hvalidator, h⟩
      · split at h <;> cases h

theorem Entry.panics_of_checkPayload {entry : Entry} {data : Json} {given : Option Json}
    {panic : Panic} (h : Update.checkPayload entry data given = .error panic) :
    entry.Panics panic := by
  rcases Host.bind_eq_error_iff.1 h with h | ⟨errors, -, h⟩
  · exact .inl ⟨data, h⟩
  · rcases Host.bind_eq_error_iff.1 h with h | ⟨result, -, h⟩
    · exact panics_of_resolveOptions h
    · cases result <;> cases h

/-- Where no validator panics, nothing does. -/
theorem Pure.not_panics {catalog : Catalog} (h : catalog.Pure) (panic : Panic) :
    ¬ catalog.Panics panic := by
  rintro ⟨entry, hentry, ⟨data, hdata⟩ | ⟨validator, options, hvalidator, hoptions⟩⟩
  · obtain ⟨errors, herrors⟩ := (h entry hentry).1 data .data
    cases hdata.symm.trans herrors
  · obtain ⟨errors, herrors⟩ := (h entry hentry).2 validator hvalidator options .options
    cases hoptions.symm.trans herrors

end AgentSurface.Catalog
