import AgentSurface.Proofs.Surface.Reducer
import AgentSurface.Proofs.Update.Entries
import AgentSurface.Proofs.Update.Independence

/-!
# Surface — what does not pass leaves no trace

Components of a message that do not pass can be left out of it, or put into it, without a change in
the surface that the message leads to (`Thinned`).  All components behind them have other indices
then, and errors that are told from these; but whether a component passes and with what payload does
not depend on its index (`alike_or_rejected`), and taking in does not look at it.

* `applyRaw_thinned`: messages that differ in components that do not pass.
* `rejected_leave_no_trace`: the same, with what becomes of an identifier none of whose components
  passes, and of a message without components.
-/

namespace AgentSurface

namespace Update

variable {catalog : Catalog} {index : Nat} {raw : Json} {items : List Json}
variable {verdicts : List Verdict}

/-! ### Components that pass -/

theorem Ruling.rejected {verdict : Verdict} (h : Ruling catalog index raw verdict)
    (hraw : ¬ Acceptable catalog raw) : ∃ e, verdict = .error e := by
  cases verdict with
  | ok e => exact absurd (h.exists_ok_iff.1 ⟨e, rfl⟩) hraw
  | error e => exact ⟨e, rfl⟩

/-- Nothing is said of a component at one place that is not said of it at any other, but for the
place. -/
theorem alike_or_rejected {i j : Nat} {v w : Verdict}
    (hv : validateEntry catalog i raw = .ok v) (hw : validateEntry catalog j raw = .ok w) :
    (∃ x y, v = .ok x ∧ w = .ok y ∧ Surface.Alike x y) ∨
      ∃ x y, v = .error x ∧ w = .error y := by
  have hshift (k : Nat) : validateEntry catalog k raw =
      (validateEntry catalog 0 raw).map (Verdict.shift k) := by
    have h : validateEntry catalog (0 + k) raw = _ := validateEntry_shift k
    rwa [Nat.zero_add] at h
  rw [hshift] at hv hw
  cases hverdict : validateEntry catalog 0 raw with
  | error panic =>
    rw [hverdict] at hv
    cases hv
  | ok verdict =>
    rw [hverdict] at hv hw
    cases hv
    cases hw
    cases verdict with
    | ok e => exact .inl ⟨_, _, rfl, rfl, rfl⟩
    | error e => exact .inr ⟨_, _, rfl, rfl⟩

/-- What passed of some components is one of those that are acceptable, under its identifier. -/
theorem Judged.exists_acceptable {e : ValidEntry} (h : Judged catalog index items verdicts)
    (he : e ∈ (Validation.ofVerdicts verdicts).valid) :
    ∃ raw ∈ items, Acceptable catalog raw ∧ stringId? raw = some e.id := by
  obtain ⟨i, hi⟩ := List.getElem?_of_mem (Validation.mem_valid_ofVerdicts.1 he)
  obtain ⟨raw, hraw, hverdict⟩ := h.exists_getElem? hi
  have hruling := ruling_of_validateEntry hverdict
  obtain ⟨payload, hshaped, -⟩ := hruling.keeps.payload
  refine ⟨raw, List.mem_of_getElem? hraw, hruling.exists_ok_iff.1 ⟨e, rfl⟩, ?_⟩
  cases hshaped with
  | entry hid _ => simp [stringId?, Json.get?, Json.fields?, hid, Json.string?]

/-! ### Components left out -/

/-- Some components that do not pass are left out of a list. -/
inductive Thinned (catalog : Catalog) : List Json → List Json → Prop where
  | nil : Thinned catalog [] []
  | keep {items thin : List Json} (raw : Json) (h : Thinned catalog items thin) :
    Thinned catalog (raw :: items) (raw :: thin)
  | drop {raw : Json} {items thin : List Json} (hraw : ¬ Acceptable catalog raw)
    (h : Thinned catalog items thin) : Thinned catalog (raw :: items) thin

/-- **Components that do not pass change nothing in what passes** but the indices. -/
theorem Thinned.forall₂_alike {thin : List Json} (h : Thinned catalog items thin) {i j : Nat}
    {vs ws : List Verdict} (hvs : Judged catalog i items vs) (hws : Judged catalog j thin ws) :
    List.Forall₂ Surface.Alike (Validation.ofVerdicts vs).valid
      (Validation.ofVerdicts ws).valid := by
  -- Behind a component that is left out the two indices differ, so both are arbitrary.
  induction h generalizing i j vs ws with
  | nil =>
    cases hvs
    cases hws
    exact .nil
  | keep raw _ ih =>
    obtain _ | ⟨hv, hvs⟩ := hvs
    obtain _ | ⟨hw, hws⟩ := hws
    rw [Validation.ofVerdicts_cons, Validation.ofVerdicts_cons]
    obtain ⟨x, y, rfl, rfl, halike⟩ | ⟨x, y, rfl, rfl⟩ := alike_or_rejected hv hw
    · exact .cons halike (ih hvs hws)
    · exact ih hvs hws
  | drop hraw _ ih =>
    obtain _ | ⟨hv, hvs⟩ := hvs
    obtain ⟨e, rfl⟩ := (ruling_of_validateEntry hv).rejected hraw
    rw [Validation.ofVerdicts_cons]
    exact ih hvs hws

end Update

namespace Surface

open Update (ValidEntry Validation Acceptable Carries Thinned stringId?)

variable {catalog : Catalog} {s : Surface}

theorem applyEntries_congr {xs ys : List ValidEntry} (h : List.Forall₂ Alike xs ys)
    (s : Surface) : s.applyEntries xs = s.applyEntries ys := by
  induction h generalizing s with
  | nil => rfl
  | cons halike _ ih => rw [applyEntries_cons, applyEntries_cons, halike.upsert_eq, ih]

/-- **A message leads where it leads without components that do not pass.** -/
theorem applyRaw_thinned (hpure : catalog.Pure) {full short : Json} {items thin : List Json}
    (hfull : Carries full items) (hshort : Carries short thin) (h : Thinned catalog items thin)
    (s : Surface) :
    ∃ next v w, s.applyRaw catalog full = .ok (next, v) ∧
      s.applyRaw catalog short = .ok (next, w) := by
  obtain ⟨vs, hvs, hv⟩ := Update.exists_judged_of_carries hpure hfull
  obtain ⟨ws, hws, hw⟩ := Update.exists_judged_of_carries hpure hshort
  have heq := applyEntries_congr (h.forall₂_alike hvs hws) s
  exact ⟨_, _, _, applyRaw_eq_ok.2 ⟨hv, rfl⟩, applyRaw_eq_ok.2 ⟨hw, heq⟩⟩

/-- **What does not pass leaves no trace.**  With validators that never panic, a message leads to
one surface with or without components that do not pass, wherever they stand.  An identifier that
only such components have keeps what it has, in its place; and a message without components leads to
the surface itself. -/
theorem rejected_leave_no_trace (hpure : catalog.Pure) (s : Surface) :
    (∀ full short items thin, Carries full items → Carries short thin →
      Thinned catalog items thin →
      ∃ next v w, s.applyRaw catalog full = .ok (next, v) ∧
        s.applyRaw catalog short = .ok (next, w)) ∧
    (∀ message items, Carries message items →
      ∃ next v, s.applyRaw catalog message = .ok (next, v) ∧ s.ids <+: next.ids ∧
        ∀ id, (∀ raw ∈ items, stringId? raw = some id → ¬ Acceptable catalog raw) →
          next.get? id = s.get? id) ∧
    ∀ message, (∀ items, ¬ Carries message items) →
      ∃ v, s.applyRaw catalog message = .ok (s, v) := by
  refine ⟨fun full short items thin hfull hshort h => applyRaw_thinned hpure hfull hshort h s,
    fun message items hcarries => ?_, fun message hnot => ?_⟩
  · obtain ⟨verdicts, hjudged, hv⟩ := Update.exists_judged_of_carries hpure hcarries
    refine ⟨_, _, applyRaw_eq_ok.2 ⟨hv, rfl⟩, ?_, fun id hid => ?_⟩
    · rw [ids_applyEntries]
      exact List.prefix_append _ _
    · refine get?_applyEntries_of_ne fun e he heq => ?_
      obtain ⟨raw, hraw, hacceptable, hstring⟩ := hjudged.exists_acceptable he
      exact hid raw hraw (hstring.trans (congrArg some heq)) hacceptable
  · obtain ⟨fault, hfault⟩ : ∃ fault, Update.validate catalog message =
        .ok (Update.rejected message fault) := Update.validate_of_not_carries hnot
    exact ⟨_, applyRaw_eq_ok.2 ⟨hfault, rfl⟩⟩

/-- A component that is no object, and one with options that are no object under an identifier that
the surface has; both stand before a component that passes, and neither is missed. -/
theorem rejected_leave_no_trace_shifted :
    let catalog : Catalog :=
      ⟨[{ typeName := "Card", purpose := "", data := .ofFunction fun _ _ => [] }]⟩
    let card (id : String) (payload : Json.Fields) : Json :=
      .object [("id", .string id), ("component", .object [("Card", .object payload)])]
    let sent (items : List Json) : Json :=
      .object [("surfaceUpdate", .object [("components", .array items)])]
    let items : List Json := [.bool true, card "a" [("options", .bool true)], card "b" []]
    let s := Surface.applyEntries {} [⟨0, "a", "Card", .object [], .object [], true⟩]
    catalog.Pure ∧ Thinned catalog items [card "b" []] ∧
      ∃ next v w, s.applyRaw catalog (sent items) = .ok (next, v) ∧
        s.applyRaw catalog (sent [card "b" []]) = .ok (next, w) ∧ next.ids = ["a", "b"] ∧
        next.get? "a" = s.get? "a" ∧ ∃ u, s.applyRaw catalog (.bool true) = .ok (s, u) := by
  intro catalog card sent items s
  have hpure : catalog.Pure := by
    simp [catalog, Catalog.Pure, Catalog.Entry.Pure, Schema.Validator.Pure,
      Schema.Validator.ofFunction]
  have hcarries : ∀ items, Carries (sent items) items := fun items => .message rfl rfl
  have hbool : Update.validateEntry catalog 0 (.bool true) = .ok (.error _) := rfl
  have hoptions :
      Update.validateEntry catalog 1 (card "a" [("options", .bool true)]) = .ok (.error _) := rfl
  have hthin : Thinned catalog items [card "b" []] :=
    .drop (Update.ruling_of_validateEntry hbool).not_acceptable
      (.drop (Update.ruling_of_validateEntry hoptions).not_acceptable (.keep _ .nil))
  obtain ⟨hsame, -, hbroken⟩ := rejected_leave_no_trace hpure s
  obtain ⟨next, v, w, hfull, hshort⟩ := hsame _ _ _ _ (hcarries items) (hcarries _) hthin
  obtain ⟨u, hu⟩ := hbroken (.bool true) fun items h => by cases h
  refine ⟨hpure, hthin, next, v, w, hfull, hshort, ?_, ?_, u, hu⟩
  all_goals
    cases hfull
    rfl

end Surface
end AgentSurface
