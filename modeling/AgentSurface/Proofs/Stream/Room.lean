import Mathlib.Data.List.Induction
import AgentSurface.Proofs.Stream.Ending

/-!
# Stream — the room for the text

The options of a reader say how many bytes its text may take.  A call that brings text asks for room
first, so as long as a reader is streaming its text is within the limit
(`Reader.within_of_streaming`).  The end of the text does not ask: bytes that are still held back
are read as one more character then, wherever the limit is.  A reader for which this is too much is
`Overfull`.

* `Call.Effect.within_or_overfull`: what one call does to a text that is within the limit.
* `within_unless_overfull`: a text leaves its limit exactly where it ends in an overfull reader, and
  by three bytes at most.
* `limit_passed_at_end`: a text that does so.
-/

namespace AgentSurface.Stream

namespace Reader

/-- The text received so far is within the limit. -/
def Within (r : Reader) : Prop := r.buffer.utf8ByteSize ≤ r.options.maxBytes

/-- Bytes are held back, and behind the text there is no room for the three bytes of the character
that the end of the text makes of them. -/
structure Overfull (r : Reader) : Prop where
  streaming : r.phase = .streaming
  held : r.decoder.hasPending = true
  noRoom : r.options.maxBytes < r.buffer.utf8ByteSize + 3

variable {r : Reader}

/-- A fresh reader is within the limit. -/
theorem within_new (options : Options) : (new options).Within := Nat.zero_le _

/-! ### The end of the text -/

/-- Flushing gives one replacement character of three bytes, or nothing. -/
theorem utf8ByteSize_flush (d : Text.Utf8.Decoder) :
    d.flush.1.utf8ByteSize = if d.hasPending then 3 else 0 := by
  unfold Text.Utf8.Decoder.flush Text.Utf8.Decoder.hasPending
  cases d.held with
  | nil => rfl
  | cons b rest => rfl

/-- Nothing held back takes no room, and a reader that has too little for what is held back is
overfull. -/
theorem room_or_overfull (hr : r.phase = .streaming) (h : r.Within) :
    r.buffer.utf8ByteSize + r.decoder.flush.1.utf8ByteSize ≤ r.options.maxBytes ∨ r.Overfull := by
  rw [utf8ByteSize_flush]
  cases hheld : r.decoder.hasPending with
  | false => exact .inl h
  | true =>
    rcases Nat.lt_or_ge r.options.maxBytes (r.buffer.utf8ByteSize + 3) with hless | hroom
    · exact .inr ⟨hr, hheld, hless⟩
    · exact .inl hroom

/-- At the end the buffer gains what was held back of a character. -/
theorem buffer_closed (r : Reader) :
    ((r.feedAll r.heldBack).holding ⟨[]⟩).close.buffer = r.buffer ++ r.decoder.flush.1 := by
  rw [buffer_close, buffer_holding, buffer_feedAll, heldBack, String.ofList_toList]

/-- The end of the text adds what is held back, and nothing is added behind it. -/
theorem buffer_after_finish (hr : r.phase = .streaming) (rest : List Call) :
    (r.after (.finish :: rest)).buffer = r.buffer ++ r.decoder.flush.1 := by
  obtain ⟨blocks, hfinish⟩ := finish_eq hr
  have hends : ¬ Call.finish.GivesText := id
  have hover : (Call.finish.on r).2.phase ≠ .streaming := (over_of_ending hr hends).2.1
  rw [after_cons, (after_over hover rest).2.2, Call.on, hfinish, buffer_closed]

/-! ### The options -/

@[simp] theorem options_close (r : Reader) : r.close.options = r.options := by
  unfold close
  split
  · rfl
  · exact options_takeLine { r with line := "" } r.line

@[simp] theorem options_abort (r : Reader) : r.abort.2.options = r.options := by
  unfold abort
  split <;> rfl

end Reader

/-! ### One call -/

namespace Call.Effect

variable {call : Call} {answer : Answer} {r next : Reader}

/-- No call changes the options. -/
theorem options_eq (h : call.Effect r answer next) : next.options = r.options := by
  cases h <;> simp

/-- **A call keeps the text within the limit**, unless it ends the text of an overfull reader. -/
theorem within_or_overfull (h : call.Effect r answer next) (hr : r.Within) :
    next.Within ∨ call = .finish ∧ r.Overfull := by
  have hoptions := h.options_eq
  unfold Reader.Within
  rw [hoptions]
  cases h with
  | finished | notAnExtension | noRoom | ignored | stillStopped => exact .inl hr
  | @fed _ text _ _ _ hroom =>
    rw [Reader.buffer_holding, Reader.buffer_feedAll, String.ofList_toList,
      String.utf8ByteSize_append]
    exact .inl hroom
  | closed hstreaming =>
    rw [Reader.buffer_closed, String.utf8ByteSize_append]
    exact (Reader.room_or_overfull hstreaming hr).imp_right fun hfull => ⟨rfl, hfull⟩
  | stopped =>
    rw [Reader.buffer_abort]
    exact .inl hr

/-- Behind the end of the text no reader is streaming. -/
theorem streaming_of_streaming (h : call.Effect r answer next) (hnext : next.phase = .streaming) :
    r.phase = .streaming ∧ call ≠ .finish := by
  refine ⟨Decidable.byContradiction fun hr => (h.over_of_over hr).1 hnext, ?_⟩
  rintro rfl
  cases h with
  | finished hr | stillStopped hr => exact nomatch hnext.symm.trans hr
  | noRoom _ hcall | fed _ hcall | ignored _ hcall => cases hcall
  | closed => cases hnext

end Call.Effect

/-! ### Runs -/

namespace Reader

variable {r : Reader}

theorem after_concat (r : Reader) (calls : List Call) (call : Call) :
    r.after (calls ++ [call]) = (call.on (r.after calls)).2 := by
  rw [after_append, after_cons, after_nil]

@[simp] theorem options_after (r : Reader) (calls : List Call) :
    (r.after calls).options = r.options := by
  induction calls generalizing r with
  | nil => rfl
  | cons call rest ih => rw [after_cons, ih, (call.effect_on r).options_eq]

/-- **A reader that is streaming is within its limit.** -/
theorem within_of_streaming (hr : r.Within) {calls : List Call}
    (h : (r.after calls).phase = .streaming) : (r.after calls).Within := by
  induction calls using List.reverseRecOn with
  | nil => exact hr
  | append_singleton calls call ih =>
    rw [after_concat] at h ⊢
    have heffect := call.effect_on (r.after calls)
    obtain ⟨hstreaming, hcall⟩ := heffect.streaming_of_streaming h
    rcases heffect.within_or_overfull (ih hstreaming) with hwithin | ⟨hfinish, -⟩
    · exact hwithin
    · exact absurd hfinish hcall

/-- A text that is not within its limit has ended in an overfull reader. -/
theorem exists_overfull (hr : r.Within) {calls : List Call} (h : ¬ (r.after calls).Within) :
    ∃ before rest, calls = before ++ .finish :: rest ∧ (r.after before).Overfull := by
  -- From the end: either the last call passed the limit, or the limit was passed before it.
  induction calls using List.reverseRecOn with
  | nil => exact absurd hr h
  | append_singleton calls call ih =>
    by_cases hcalls : (r.after calls).Within
    · rw [after_concat] at h
      rcases (call.effect_on (r.after calls)).within_or_overfull hcalls with
        hwithin | ⟨rfl, hfull⟩
      · exact absurd hwithin h
      · exact ⟨calls, [], rfl, hfull⟩
    · obtain ⟨before, rest, rfl, hfull⟩ := ih hcalls
      exact ⟨before, rest ++ [call], by simp, hfull⟩

/-- The text of an overfull reader that was ended is what it was, and three bytes more. -/
theorem Overfull.utf8ByteSize_after (h : r.Overfull) (rest : List Call) :
    (r.after (.finish :: rest)).buffer.utf8ByteSize = r.buffer.utf8ByteSize + 3 := by
  rw [buffer_after_finish h.streaming, String.utf8ByteSize_append, utf8ByteSize_flush, h.held]
  rfl

/-- A text that ends in an overfull reader passes its limit, by three bytes at most. -/
theorem limit_lt_of_overfull (hr : r.Within) {before : List Call}
    (h : (r.after before).Overfull) (rest : List Call) :
    r.options.maxBytes < (r.after (before ++ .finish :: rest)).buffer.utf8ByteSize ∧
      (r.after (before ++ .finish :: rest)).buffer.utf8ByteSize ≤ r.options.maxBytes + 3 := by
  have hnoRoom := h.noRoom
  have hbefore : (r.after before).Within := within_of_streaming hr h.streaming
  rw [options_after] at hnoRoom
  rw [Within, options_after] at hbefore
  rw [after_append, h.utf8ByteSize_after rest]
  exact ⟨hnoRoom, Nat.add_le_add_right hbefore 3⟩

end Reader

open Reader

/-- **A text keeps within its limit unless it ends in an overfull reader.**  Behind any calls, a
reader that is still streaming has a text within the limit.  The text is larger than the limit if
and only if one of the calls ended it while bytes were held back and there was no room for the
character that they are read as; and then it is larger by three bytes at most. -/
theorem within_unless_overfull (options : Options) (calls : List Call) :
    let r := (new options).after calls
    (r.phase = .streaming → r.buffer.utf8ByteSize ≤ options.maxBytes) ∧
      (options.maxBytes < r.buffer.utf8ByteSize ↔
        ∃ before rest, calls = before ++ .finish :: rest ∧
          ((new options).after before).Overfull) ∧
      r.buffer.utf8ByteSize ≤ options.maxBytes + 3 := by
  intro r
  have hnew : (new options).Within := within_new options
  have hwithin : r.Within ↔ r.buffer.utf8ByteSize ≤ options.maxBytes := by
    rw [Within, options_after, options_new]
  refine ⟨fun h => hwithin.1 (within_of_streaming hnew h), ⟨fun h => ?_, ?_⟩, ?_⟩
  · exact exists_overfull hnew fun hr => absurd (hwithin.1 hr) (Nat.not_le.2 h)
  · rintro ⟨before, rest, rfl, hfull⟩
    exact (limit_lt_of_overfull hnew hfull rest).1
  · by_cases hr : r.Within
    · exact Nat.le_add_right_of_le (hwithin.1 hr)
    · obtain ⟨before, rest, rfl, hfull⟩ := exists_overfull hnew hr
      exact (limit_lt_of_overfull hnew hfull rest).2

/-- **A text can leave its limit at its end.**  Three letters and the first byte of a fourth take
the four bytes that the limit allows, but the end of the text makes three bytes of the last one. -/
theorem limit_passed_at_end :
    let options : Options := { maxBytes := 4 }
    let r := (new options).after [.push "abc", .pushBytes [0xC3], .finish]
    r.buffer = "abc\uFFFD" ∧ options.maxBytes < r.buffer.utf8ByteSize := by
  exact ⟨by rfl, by decide⟩

end AgentSurface.Stream
