import AgentSurface.Proofs.Stream.Calls

/-!
# Stream — what a call can do

`Call.Effect` has one rule for each thing that can happen when a reader is told something, and
`Call.effect_on` says that nothing else does: what holds of every rule holds of every call.

The three calls that bring text differ in how they come to it (`Call.Brings`), and go on as one.
-/

namespace AgentSurface.Stream

namespace Call

/-- The call brings the reader this text, and these bytes are held back behind it. -/
inductive Brings (r : Reader) : Call → String → Text.Utf8.Decoder → Prop where
  | push (piece : String) : Brings r (.push piece) piece r.decoder
  | pushBytes (bytes : List UInt8) :
    Brings r (.pushBytes bytes) (r.decoder.decode bytes).1 (r.decoder.decode bytes).2
  | sync {full rest : String} (h : full = r.buffer ++ rest) :
    Brings r (.sync full) rest r.decoder

/-- The call has this answer, and leads from the reader to this one. -/
inductive Effect (r : Reader) : Call → Answer → Reader → Prop where
  /-- A reader that is finished can only be stopped. -/
  | finished {call : Call} (hr : r.phase = .finished) (hcall : call ≠ .abort) :
    Effect r call (.error .finished) r
  | notAnExtension {full : String} (hr : r.phase ≠ .finished)
    (h : ¬ r.buffer.toList <+: full.toList) :
    Effect r (.sync full) (.error (.notAnExtension r.received)) r
  /-- The text is not taken, but bytes have been through the decoder by then. -/
  | noRoom {call : Call} {text : String} {d : Text.Utf8.Decoder} (hr : r.phase = .streaming)
    (hcall : call.Brings r text d)
    (hroom : r.options.maxBytes < r.buffer.utf8ByteSize + text.utf8ByteSize) :
    Effect r call
      (.error (.limitExceeded r.options.maxBytes (r.buffer.utf8ByteSize + text.utf8ByteSize)))
      (r.holding d)
  | fed {call : Call} {text : String} {d : Text.Utf8.Decoder} (hr : r.phase = .streaming)
    (hcall : call.Brings r text d)
    (hroom : r.buffer.utf8ByteSize + text.utf8ByteSize ≤ r.options.maxBytes) :
    Effect r call (.ok ((r.feedAll text.toList).blocksSince r.blocks.length))
      ((r.feedAll text.toList).holding d)
  /-- A reader that was stopped takes no text, and refuses none. -/
  | ignored {call : Call} {text : String} {d : Text.Utf8.Decoder} (hr : r.phase = .aborted)
    (hcall : call.Brings r text d) : Effect r call (.ok []) (r.holding d)
  | closed (hr : r.phase = .streaming) :
    Effect r .finish
      (.ok (((r.feedAll r.heldBack).holding ⟨[]⟩).close.blocksSince r.blocks.length))
      ((r.feedAll r.heldBack).holding ⟨[]⟩).close
  | stillStopped (hr : r.phase = .aborted) : Effect r .finish (.ok []) r
  | stopped : Effect r .abort (.ok r.abort.1) r.abort.2

variable {call : Call} {r : Reader} {text : String} {d : Text.Utf8.Decoder}

/-- To bring a text is to push it, with the bytes behind it held back. -/
theorem Brings.on_eq (h : call.Brings r text d) (hr : r.phase ≠ .finished) :
    call.on r = (r.holding d).push text := by
  cases h with
  | push piece => rfl
  | pushBytes bytes => exact Reader.pushBytes_eq hr bytes
  | sync hfull => exact Reader.sync_eq hr hfull

theorem Brings.effect (h : call.Brings r text d) (hr : r.phase ≠ .finished) :
    call.Effect r (call.on r).1 (call.on r).2 := by
  rw [h.on_eq hr]
  cases hphase : r.phase with
  | finished => exact absurd hphase hr
  | aborted =>
    have hpush : (r.holding d).push text = (.ok [], r.holding d) := by
      simp only [Reader.push, Reader.phase_holding, hphase]
    rw [hpush]
    exact .ignored hphase h
  | streaming =>
    have hreceived : (r.holding d).received = r.buffer.utf8ByteSize := r.received_eq
    simp only [Reader.push, Reader.phase_holding, hphase, hreceived, Reader.options_holding,
      Reader.feedAll_holding]
    split
    · next hroom => exact .noRoom hphase h hroom
    · next hroom => exact .fed hphase h (Nat.le_of_not_lt hroom)

/-- **Whatever a reader is told has one of the effects.** -/
theorem effect_on (call : Call) (r : Reader) : call.Effect r (call.on r).1 (call.on r).2 := by
  by_cases hr : r.phase = .finished
  · cases call with
    | push _ | pushBytes _ | sync _ | finish =>
      simp only [on, Reader.push, Reader.pushBytes, Reader.sync, Reader.finish, hr]
      exact .finished hr (by simp)
    | abort => exact .stopped
  cases call with
  | push piece => exact (Brings.push piece).effect hr
  | pushBytes bytes => exact (Brings.pushBytes bytes).effect hr
  | sync full =>
    by_cases hfull : r.buffer.toList <+: full.toList
    · obtain ⟨rest, hrest⟩ := Reader.exists_append_of_prefix hfull
      exact (Brings.sync hrest).effect hr
    · have hrefused : r.sync full = (.error (.notAnExtension r.received), r) := by
        have hprefix : ¬ r.buffer.toList.isPrefixOf full.toList = true :=
          fun h => hfull (List.isPrefixOf_iff_prefix.1 h)
        cases hphase : r.phase with
        | finished => exact absurd hphase hr
        | aborted | streaming => simp only [Reader.sync, hphase, if_neg hprefix]
      rw [on, hrefused]
      exact .notAnExtension hr hfull
  | finish =>
    cases hphase : r.phase with
    | finished => exact absurd hphase hr
    | aborted =>
      simp only [on, Reader.finish, hphase]
      exact .stillStopped hphase
    | streaming =>
      obtain ⟨blocks, hfinish⟩ := Reader.finish_eq hphase
      have hanswer : r.finish.1 = .ok (r.finish.2.blocksSince r.blocks.length) := by
        simp only [Reader.finish, hphase]
      rw [on, hanswer, hfinish]
      exact .closed hphase
  | abort => exact .stopped

theorem effect_of_eq {answer : Answer} {next : Reader} (h : call.on r = (answer, next)) :
    call.Effect r answer next := by
  simpa only [h] using call.effect_on r

end Call

/-- A call that gives text feeds a text, which is empty if nothing is taken. -/
theorem Reader.exists_call (r : Reader) {call : Call} (hcall : call.GivesText) :
    ∃ s d, (call.on r).2 = (r.feedAll s).holding d := by
  have heffect := call.effect_on r
  generalize (call.on r).1 = answer, (call.on r).2 = next at heffect
  cases heffect with
  | finished | notAnExtension => exact ⟨[], r.decoder, rfl⟩
  | noRoom | ignored => exact ⟨[], _, rfl⟩
  | fed => exact ⟨_, _, rfl⟩
  | closed | stillStopped | stopped => exact hcall.elim

end AgentSurface.Stream
