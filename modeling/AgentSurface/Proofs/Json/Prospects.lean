import AgentSurface.Proofs.Json.Approximation
import AgentSurface.Proofs.Json.Moves

/-!
# Json — what the reader can still read

A machine that is inside a text has decided a part of the value of the text: the containers that are
open keep what is in them, and more may follow in each.  `State.MayBecome s v` says that `v` agrees
with what `s` has read, and `State.closed?` is the value that closing the open containers gives.

* `State.mayBecome_of_gives`: a machine gives only values that it may become.
* `State.closed_approximates`: a closed value approximates every value that the machine may become.
-/

namespace AgentSurface.Json

/-! ### Containers that are open -/

namespace Context

/-- The value in its place is part of the whole value, with more behind it in each container. -/
def Leads : Context → Json → Json → Prop
  | [], x, v => x = v
  | .item before :: context, x, v =>
    ∃ more, Leads context (.array ((x :: before).reverse ++ more)) v
  | .member before key :: context, x, v =>
    ∃ more, Leads context (.object (((key, x) :: before).reverse ++ more)) v

/-- The whole value with nothing behind the value in its place. -/
def fill : Context → Json → Json
  | [], x => x
  | .item before :: context, x => fill context (.array (x :: before).reverse)
  | .member before key :: context, x => fill context (.object ((key, x) :: before).reverse)

/-- What is known of a value in its place is known of the whole value. -/
theorem fill_approximates {context : Context} {a x v : Json} (h : context.Leads x v)
    (ha : Approximates a x) : Approximates (context.fill a) v := by
  induction context generalizing a x with
  | nil => cases h; exact ha
  | cons frame context ih =>
    cases frame with
    | item before =>
      obtain ⟨more, hmore⟩ := h
      refine ih hmore ?_
      simp only [Approximates, List.reverse_cons, List.append_assoc]
      exact itemsApproximate_append _ (by simp [ItemsApproximate, ha])
    | member before key =>
      obtain ⟨more, hmore⟩ := h
      refine ih hmore ?_
      simp only [Approximates, List.reverse_cons, List.append_assoc]
      exact fieldsApproximate_append _ (by simp [FieldsApproximate, ha])

end Context

/-- The whole string in its place is part of the whole value. -/
def StringRole.Leads : StringRole → String → Json → Prop
  | .value context, text, v => context.Leads (.string text) v
  | .key before context, text, v =>
    ∃ x more, context.Leads (.object (((text, x) :: before).reverse ++ more)) v

/-- A `\u` escape can still be completed. -/
def StringPart.Alive : StringPart → Prop
  | .hex _ code _ => code.isSome = true
  | _ => True

namespace State

/-- The value agrees with all that the machine has read. -/
def MayBecome : State → Json → Prop
  | .value context, v => ∃ x, context.Leads x v
  | .listStart context, v => ∃ items, context.Leads (.array items) v
  | .listNext before context, v | .listMore before context, v =>
    ∃ more, context.Leads (.array (before.reverse ++ more)) v
  | .objectStart context, v => ∃ fields, context.Leads (.object fields) v
  | .objectNext before context, v | .objectMore before context, v =>
    ∃ more, context.Leads (.object (before.reverse ++ more)) v
  | .colon before key context, v =>
    ∃ x more, context.Leads (.object (((key, x) :: before).reverse ++ more)) v
  | .literal _ x context, v => context.Leads x v
  | .number _ context, v => ∃ n, context.Leads (.number n) v
  | .string text part role, v => part.Alive ∧ ∃ more, role.Leads (text ++ more) v
  | .done x, v => x = v

/-- The value that closing the open containers gives, if a container may end here. -/
def closed? : State → Option Json
  | .listStart context => some (context.fill (.array []))
  | .listMore before context => some (context.fill (.array before.reverse))
  | .objectStart context => some (context.fill (.object []))
  | .objectMore before context => some (context.fill (.object before.reverse))
  | .number numeral context =>
    if numeral.complete then numeral.value?.map fun n => context.fill (.number n) else none
  | .done v => some v
  | _ => none

/-! ### A value in its place -/

/-- A supplied value may become what its context leads to with it. -/
theorem mayBecome_supply {context : Context} {x v : Json} :
    (context.supply x).MayBecome v ↔ context.Leads x v := by
  cases context with
  | nil => rfl
  | cons frame rest => cases frame <;> rfl

/-- Closing behind a supplied value fills its context. -/
theorem closed?_supply (context : Context) (x : Json) :
    (context.supply x).closed? = some (context.fill x) := by
  cases context with
  | nil => rfl
  | cons frame rest => cases frame <;> rfl

/-- A string that has ended may become what its role leads to with the text. -/
theorem mayBecome_closeString {role : StringRole} {text : String} {v : Json} :
    (closeString text role).MayBecome v ↔ role.Leads text v := by
  cases role with
  | value context => exact mayBecome_supply
  | key before context => rfl

end State

/-! ### One character back -/

/-- What a value begun here may become, some value in its context leads to. -/
theorem Start.mayBecome {context : Context} {c : Char} {s : State} {v : Json}
    (h : Start context c s) (hv : s.MayBecome v) : ∃ x, context.Leads x v := by
  cases h with
  | string => obtain ⟨-, more, hmore⟩ := hv; exact ⟨_, hmore⟩
  | list => obtain ⟨items, hitems⟩ := hv; exact ⟨_, hitems⟩
  | object => obtain ⟨fields, hfields⟩ := hv; exact ⟨_, hfields⟩
  | word => exact ⟨_, hv⟩
  | number => obtain ⟨n, hn⟩ := hv; exact ⟨_, hn⟩

theorem alive_of_hexCode {taken : Nat} {code lead : Option Nat} {c : Char}
    (h : (hexCode code c).isSome = true) : (StringPart.hex taken code lead).Alive := by
  cases code with
  | none => cases h
  | some n => rfl

/-- A string only grows, and an escape that can be completed could be completed before. -/
theorem Inside.grows {text text' : String} {part part' : StringPart} {c : Char}
    (h : Inside text part c text' part') (ha : part'.Alive) :
    part.Alive ∧ ∃ more, text' = text ++ more := by
  have hsame : ∃ more, text = text ++ more := ⟨"", by simp⟩
  have hpush : ∀ c : Char, ∃ more, text.push c = text ++ more :=
    fun c => ⟨String.singleton c, by simp⟩
  cases h with
  | plain => exact ⟨trivial, hpush _⟩
  | backslash => exact ⟨trivial, hsame⟩
  | short => exact ⟨trivial, hpush _⟩
  | unicode => exact ⟨trivial, hsame⟩
  | digit => exact ⟨alive_of_hexCode ha, hsame⟩
  | firstHalf h => exact ⟨alive_of_hexCode (by rw [h]; rfl), hsame⟩
  | lastDigit h => exact ⟨alive_of_hexCode (by rw [h]; rfl), hpush _⟩
  | leadBackslash => exact ⟨trivial, hsame⟩
  | secondHalf => exact ⟨trivial, hsame⟩

/-- What the machine may become behind a character it may become before it. -/
theorem Move.mayBecome {s s' : State} {c : Char} {v : Json} (h : Move s c s')
    (hv : s'.MayBecome v) : s.MayBecome v := by
  -- The induction is for numerals: what ends one moves the machine as it does behind the number.
  induction h with
  | blank => exact hv
  | start h => exact h.mayBecome hv
  | firstItem h => obtain ⟨x, more, hmore⟩ := h.mayBecome hv; exact ⟨_, hmore⟩
  | nextItem h =>
    obtain ⟨x, more, hmore⟩ := h.mayBecome hv
    exact ⟨x :: more, by simpa using hmore⟩
  | emptyList => exact ⟨[], State.mayBecome_supply.1 hv⟩
  | listComma => exact hv
  | closeList => exact ⟨[], by simpa using State.mayBecome_supply.1 hv⟩
  | firstKey => obtain ⟨-, more, x, ms, hms⟩ := hv; exact ⟨_, hms⟩
  | nextKey =>
    obtain ⟨-, more, x, ms, hms⟩ := hv
    exact ⟨_ :: ms, by simpa using hms⟩
  | emptyObject => exact ⟨[], State.mayBecome_supply.1 hv⟩
  | colon => exact hv
  | objectComma => exact hv
  | closeObject => exact ⟨[], by simpa using State.mayBecome_supply.1 hv⟩
  | letter => exact hv
  | lastLetter => exact State.mayBecome_supply.1 hv
  | digit => exact hv
  | numberEnd _ _ _ ih => exact ⟨_, State.mayBecome_supply.1 (ih hv)⟩
  | quote => exact ⟨trivial, "", by simpa using State.mayBecome_closeString.1 hv⟩
  | inside h =>
    obtain ⟨halive, more, hmore⟩ := hv
    obtain ⟨hpart, begun, rfl⟩ := h.grows halive
    exact ⟨hpart, begun ++ more, by rwa [← String.append_assoc]⟩

/-! ### A whole run -/

namespace State

/-- What the machine may become behind a text it may become before it. -/
theorem mayBecome_of_feed {s s' : State} {text : List Char} {v : Json}
    (h : Text.feed step s text = .ok s') (hv : s'.MayBecome v) : s.MayBecome v := by
  induction text generalizing s with
  | nil => cases h; exact hv
  | cons c rest ih =>
    obtain ⟨next, hstep, hrest⟩ := Text.feed_cons_eq_ok_iff.1 h
    exact (Move.of_step hstep).mayBecome (ih hrest)

/-- At the end of the text everything is closed. -/
theorem closed?_of_finish {s : State} {v : Json} (h : s.finish = .ok v) : s.closed? = some v := by
  cases s with
  | done w => cases h; rfl
  | number numeral context =>
    simp only [finish] at h
    split at h
    · next hcomplete =>
      split at h <;> cases h
      next n hn => simp [closed?, hcomplete, hn, Context.fill]
    · cases h
  | _ => cases h

/-- A state that ends in a value may become it. -/
theorem mayBecome_of_finish {s : State} {v : Json} (h : s.finish = .ok v) : s.MayBecome v := by
  cases s with
  | done w => cases h; rfl
  | number numeral context =>
    simp only [finish] at h
    split at h
    · split at h <;> cases h
      exact ⟨_, rfl⟩
    · cases h
  | _ => cases h

/-- A state from which some text gives a value may become it. -/
theorem mayBecome_of_gives {s : State} {text : List Char} {v : Json}
    (h : s.gives? text = some v) : s.MayBecome v := by
  obtain ⟨s', hfeed, hfinish⟩ := gives?_eq_some_iff.1 h
  exact mayBecome_of_feed hfeed (mayBecome_of_finish hfinish)

/-- **A closed value shows nothing that the whole value does not have.** -/
theorem closed_approximates {s : State} {a v : Json} (h : s.closed? = some a)
    (hv : s.MayBecome v) : Approximates a v := by
  cases s with
  | listStart context =>
    obtain ⟨items, hitems⟩ := hv
    cases h
    exact Context.fill_approximates hitems (by simp [Approximates, ItemsApproximate])
  | listMore before context =>
    obtain ⟨more, hmore⟩ := hv
    cases h
    have hnone : ItemsApproximate [] more := by simp only [ItemsApproximate]
    refine Context.fill_approximates hmore ?_
    simpa only [Approximates, List.append_nil] using itemsApproximate_append before.reverse hnone
  | objectStart context =>
    obtain ⟨fields, hfields⟩ := hv
    cases h
    exact Context.fill_approximates hfields (by simp [Approximates, FieldsApproximate])
  | objectMore before context =>
    obtain ⟨more, hmore⟩ := hv
    cases h
    have hnone : FieldsApproximate [] more := by simp only [FieldsApproximate]
    refine Context.fill_approximates hmore ?_
    simpa only [Approximates, List.append_nil] using fieldsApproximate_append before.reverse hnone
  | number numeral context =>
    obtain ⟨n, hn⟩ := hv
    simp only [closed?] at h
    split at h
    · obtain ⟨m, -, rfl⟩ := Option.map_eq_some_iff.1 h
      exact Context.fill_approximates hn (by simp [Approximates])
    · cases h
  | done w => cases h; cases hv; exact .refl _
  | _ => cases h

end State

end AgentSurface.Json
