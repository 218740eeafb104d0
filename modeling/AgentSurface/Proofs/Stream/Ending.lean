import AgentSurface.Proofs.Stream.Effects

/-!
# Stream — behind the end

A reader whose text is over, because it was finished or stopped, keeps its blocks and its text
whatever it is told (`Reader.after_over`).  What changes is how it answers: a finished reader refuses
every call, and a reader that was stopped takes none of them and refuses hardly any.  To be told to
stop leads from the one to the other, and nothing leads back (`Reader.finished_after_iff`).

* `ended_for_good`: behind the first end of a text nothing is added to blocks and text and nothing is
  pending, and all calls are refused exactly as long as the reader was not told to stop.
* `finished_then_stopped`: a finished reader that is told to stop is not finished any more.
-/

namespace AgentSurface.Stream

namespace Reader

variable {r : Reader}

@[simp] theorem phase_abort (r : Reader) : r.abort.2.phase = .aborted := rfl

theorem buffer_abort (r : Reader) : r.abort.2.buffer = r.buffer := by
  unfold abort
  split
  · next text _ _ => exact buffer_settle r (proseBlocks text)
  · exact buffer_settle r []

/-- Aborting a reader that is over gives no block. -/
theorem blocks_abort_of_over (hr : r.phase ≠ .streaming) : r.abort.2.blocks = r.blocks := by
  cases hphase : r.phase with
  | streaming => exact absurd hphase hr
  | finished | aborted => simp [abort, settle, hphase]

/-- A reader that is over has nothing pending. -/
theorem pending_of_over (hr : r.phase ≠ .streaming) : r.pending = none := by
  cases hphase : r.phase with
  | streaming => exact absurd hphase hr
  | finished | aborted => simp only [pending, hphase]

end Reader

namespace Call.Effect

variable {call : Call} {answer : Answer} {r next : Reader}

/-- A reader whose text is over keeps its blocks and its text. -/
theorem over_of_over (h : call.Effect r answer next) (hr : r.phase ≠ .streaming) :
    next.phase ≠ .streaming ∧ next.blocks = r.blocks ∧ next.buffer = r.buffer := by
  cases h with
  | finished | notAnExtension | ignored | stillStopped => exact ⟨hr, rfl, rfl⟩
  | noRoom hstreaming | fed hstreaming | closed hstreaming => exact absurd hstreaming hr
  | stopped => exact ⟨by simp, Reader.blocks_abort_of_over hr, r.buffer_abort⟩

/-- Only to be told to stop ends being finished, and behind the end of the text nothing begins it. -/
theorem finished_iff (h : call.Effect r answer next) (hr : r.phase ≠ .streaming) :
    next.phase = .finished ↔ r.phase = .finished ∧ call ≠ .abort := by
  cases h with
  | finished hfinished hcall => exact ⟨fun _ => ⟨hfinished, hcall⟩, fun _ => hfinished⟩
  | notAnExtension => simp
  | noRoom hstreaming | fed hstreaming | closed hstreaming => exact absurd hstreaming hr
  | ignored haborted | stillStopped haborted => simp [haborted]
  | stopped => simp

/-- A call comes too late exactly when the reader is finished. -/
theorem answer_eq_finished_iff (h : call.Effect r answer next) (hcall : call ≠ .abort) :
    answer = .error .finished ↔ r.phase = .finished := by
  cases h with
  | finished hfinished => exact ⟨fun _ => hfinished, fun _ => rfl⟩
  | notAnExtension hr => simpa using hr
  | noRoom hstreaming | fed hstreaming | closed hstreaming => simp [hstreaming]
  | ignored haborted | stillStopped haborted => simp [haborted]
  | stopped => exact absurd rfl hcall

end Call.Effect

namespace Reader

variable {r : Reader}

/-- Calls that give text do not change the phase. -/
theorem phase_after_of_givesText (r : Reader) {calls : List Call}
    (hcalls : ∀ call ∈ calls, call.GivesText) : (r.after calls).phase = r.phase := by
  induction calls generalizing r with
  | nil => rfl
  | cons call rest ih =>
    obtain ⟨hcall, hrest⟩ := List.forall_mem_cons.1 hcalls
    obtain ⟨s, d, hnext⟩ := exists_call r hcall
    rw [after_cons, ih _ hrest, hnext, phase_holding, phase_feedAll]

/-- **What is over stays as it is**, whatever the reader is told. -/
theorem after_over (hr : r.phase ≠ .streaming) (calls : List Call) :
    (r.after calls).phase ≠ .streaming ∧ (r.after calls).blocks = r.blocks ∧
      (r.after calls).buffer = r.buffer := by
  induction calls generalizing r with
  | nil => exact ⟨hr, rfl, rfl⟩
  | cons call rest ih =>
    obtain ⟨hphase, hblocks, hbuffer⟩ := (call.effect_on r).over_of_over hr
    obtain ⟨hlast, hsame, htext⟩ := ih hphase
    exact ⟨hlast, hsame.trans hblocks, htext.trans hbuffer⟩

/-- A reader stays finished until it is told to stop. -/
theorem finished_after_iff (hr : r.phase ≠ .streaming) (calls : List Call) :
    (r.after calls).phase = .finished ↔ r.phase = .finished ∧ .abort ∉ calls := by
  induction calls generalizing r with
  | nil => simp
  | cons call rest ih =>
    have heffect := call.effect_on r
    rw [after_cons, ih (heffect.over_of_over hr).1, heffect.finished_iff hr, List.mem_cons, not_or,
      and_assoc, ne_comm]

/-- The first call that gives no text ends it: it is not refused, and the reader is finished unless
it was told to stop. -/
theorem over_of_ending (hr : r.phase = .streaming) {ending : Call} (h : ¬ ending.GivesText) :
    (ending.on r).1.isOk ∧ (ending.on r).2.phase ≠ .streaming ∧
      ((ending.on r).2.phase = .finished ↔ ending ≠ .abort) := by
  cases ending with
  | push | pushBytes | sync => exact absurd trivial h
  | finish =>
    obtain ⟨blocks, hfinish⟩ := finish_eq hr
    rw [Call.on, hfinish]
    simp [close, Except.isOk, Except.toBool]
  | abort => simp [Call.on, Except.isOk, Except.toBool]

end Reader

open Reader

/-- **The first end of a text is its end for good.**  The call that ends the text is not refused.
Whatever the reader is told then, its blocks and its text stay, and nothing is pending; and it is
finished, and refuses every call but stopping for this reason, exactly as long as it was not told to
stop. -/
theorem ended_for_good (options : Options) {before : List Call} {ending : Call} (rest : List Call)
    (hbefore : ∀ call ∈ before, call.GivesText) (hending : ¬ ending.GivesText) :
    let r := (new options).after before
    let ended := (ending.on r).2
    let last := ended.after rest
    (ending.on r).1.isOk ∧
      last.blocks = ended.blocks ∧ last.buffer = ended.buffer ∧ last.pending = none ∧
      (last.phase = .finished ↔ Call.abort ∉ ending :: rest) ∧
      ∀ call : Call, call ≠ .abort →
        ((call.on last).1 = .error .finished ↔ Call.abort ∉ ending :: rest) := by
  intro r ended last
  have hr : r.phase = .streaming := phase_after_of_givesText _ hbefore
  obtain ⟨hok, hover, hfinished⟩ := over_of_ending hr hending
  obtain ⟨hphase, hblocks, hbuffer⟩ := after_over hover rest
  have hlast : last.phase = .finished ↔ Call.abort ∉ ending :: rest := by
    rw [finished_after_iff hover rest, hfinished, List.mem_cons, not_or, ne_comm]
  refine ⟨hok, hblocks, hbuffer, pending_of_over hphase, hlast, fun call hcall => ?_⟩
  exact ((call.effect_on last).answer_eq_finished_iff hcall).trans hlast

/-- Half a letter is still held back at the end, and its other half comes too late. -/
theorem ended_for_good_half_letter :
    let before : List Call := [.push "Hi", .pushBytes [0xC3]]
    let ended := ((new {}).after before).finish.2
    let last := ended.after [.pushBytes [0xA9], .finish]
    (∀ call ∈ before, call.GivesText) ∧ ¬ Call.finish.GivesText ∧
      ended.blocks = [.text "Hi\uFFFD"] ∧ last.blocks = ended.blocks ∧
      last.buffer = ended.buffer ∧ last.pending = none ∧ last.phase = .finished := by
  have hbefore : ∀ call ∈ [Call.push "Hi", .pushBytes [0xC3]], call.GivesText := by
    simp [Call.GivesText]
  have hending : ¬ Call.finish.GivesText := id
  obtain ⟨-, hblocks, hbuffer, hpending, hphase, -⟩ :=
    ended_for_good {} [.pushBytes [0xA9], .finish] hbefore hending
  exact ⟨hbefore, hending, by rfl, hblocks, hbuffer, hpending, hphase.2 (by simp)⟩

/-- **A finished reader that is told to stop forgets that it is finished**, and takes it without a
refusal that more text comes. -/
theorem finished_then_stopped :
    let finished := (new {}).after [.push "Hi", .finish]
    let stopped := finished.after [.abort]
    finished.phase = .finished ∧ ((Call.push "more").on finished).1 = .error .finished ∧
      stopped.phase ≠ .finished ∧ ((Call.push "more").on stopped).1 = .ok [] := by
  exact ⟨rfl, rfl, by decide, rfl⟩

end AgentSurface.Stream
