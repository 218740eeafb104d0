import AgentSurface.Proofs.Stream.Delivery
import AgentSurface.Proofs.Stream.Effects

/-!
# Stream — what a call answers

A call that is not refused answers the blocks that it adds to those given before: none of them is
missing from the reader behind the call, and none is told twice.  A call that is refused adds none.

* `Call.blocks_on`: behind a call, the blocks are those before it and then those of its answer.
* `Reader.blocks_after`: behind some calls, the blocks are those before them and then their answers.
* `blocks_given_once`: both for the runs of a new reader, and what the beginning of a text settles is
  the beginning of what the whole text settles.
-/

namespace AgentSurface.Stream

namespace Reader

variable {r next : Reader}

/-! ### Blocks that were given stay -/

/-- A line that is taken takes no block away. -/
theorem blocks_prefix_takeLine (r : Reader) (line : String) :
    r.blocks <+: (r.takeLine line).blocks := by
  unfold takeLine
  split <;> split <;> simp

/-- A character that is read takes no block away. -/
theorem blocks_prefix_feed (r : Reader) (c : Char) : r.blocks <+: (r.feed c).blocks := by
  unfold feed
  split
  · exact blocks_prefix_takeLine { r with line := "" } _
  · exact List.prefix_rfl

/-- A text that is read takes no block away. -/
theorem blocks_prefix_feedAll (r : Reader) (s : List Char) : r.blocks <+: (r.feedAll s).blocks := by
  induction s generalizing r with
  | nil => exact List.prefix_rfl
  | cons c rest ih => exact (blocks_prefix_feed r c).trans (ih (r.feed c))

theorem blocks_prefix_settle (r : Reader) (blocks : List Block) :
    r.blocks <+: (settle r blocks).blocks :=
  List.prefix_append _ _

/-- Closing takes no block away. -/
theorem blocks_prefix_close (r : Reader) : r.blocks <+: r.close.blocks := by
  refine List.IsPrefix.trans ?_ (blocks_prefix_settle _ _)
  split
  · exact List.prefix_rfl
  · exact blocks_prefix_takeLine { r with line := "" } _

/-! ### Answers -/

/-- The blocks a reader has are those it had before and those it has gained since. -/
theorem append_blocksSince (h : r.blocks <+: next.blocks) :
    next.blocks = r.blocks ++ next.blocksSince r.blocks.length :=
  (List.prefix_iff_eq_append.1 h).symm

/-- Aborting adds to the blocks exactly those it answers with. -/
theorem blocks_of_abort (r : Reader) : r.abort.2.blocks = r.blocks ++ r.abort.1 := by
  refine append_blocksSince ?_
  unfold abort
  split
  · exact blocks_prefix_settle _ _
  · exact blocks_prefix_settle _ _

end Reader

open Reader

/-- The blocks of an answer. -/
def Answer.blocks : Answer → List Block
  | .ok blocks => blocks
  | .error _ => []

namespace Call

variable {r next : Reader}

/-- **What a call answers is what it adds.**  Behind a call, the blocks are those before it and then
those of the answer. -/
theorem Effect.blocks_eq {call : Call} {answer : Answer} (h : call.Effect r answer next) :
    next.blocks = r.blocks ++ answer.blocks := by
  cases h with
  | finished | notAnExtension | noRoom | ignored | stillStopped => exact (List.append_nil _).symm
  | fed => exact append_blocksSince (blocks_prefix_feedAll r _)
  | closed =>
    -- What is held back is fed, and then the reader is closed: both only add blocks.
    exact append_blocksSince ((blocks_prefix_feedAll r r.heldBack).trans
      (blocks_prefix_close ((r.feedAll r.heldBack).holding ⟨[]⟩)))
  | stopped => exact blocks_of_abort r

/-- Every call, answered or refused, adds to the blocks exactly those of its answer. -/
theorem blocks_on (call : Call) (r : Reader) :
    (call.on r).2.blocks = r.blocks ++ Answer.blocks (call.on r).1 :=
  (call.effect_on r).blocks_eq

theorem blocks_of_ok (call : Call) {blocks : List Block} (h : call.on r = (.ok blocks, next)) :
    next.blocks = r.blocks ++ blocks :=
  (effect_of_eq h).blocks_eq

/-- A call that is refused adds no block. -/
theorem blocks_of_error (call : Call) {refusal : Refusal} (h : call.on r = (.error refusal, next)) :
    next.blocks = r.blocks :=
  (effect_of_eq h).blocks_eq.trans (List.append_nil _)

end Call

/-! ### Runs -/

/-- **What calls answer is what they add.**  Behind some calls, the blocks are those before them
and then those of the answers. -/
theorem Reader.blocks_after (r : Reader) (calls : List Call) :
    (r.after calls).blocks = r.blocks ++ (r.answers calls).flatMap Answer.blocks := by
  induction calls generalizing r with
  | nil => exact (List.append_nil _).symm
  | cons call rest ih =>
    rw [after_cons, ih, Call.blocks_on, answers_cons, List.flatMap_cons, List.append_assoc]

/-- **Blocks are given once and never taken back.**

* A call keeps the blocks that were given before.  If it is not refused it adds those that it
  answers, and otherwise none.
* The blocks are those of all answers, one after the other.
* What is settled behind the beginning of a text is the beginning of what is settled at the end. -/
theorem blocks_given_once (options : Options) :
    (∀ (calls : List Call) (call : Call),
      let r := (new options).after calls
      let next := (call.on r).2
      r.blocks <+: next.blocks ∧
      (∀ blocks, (call.on r).1 = .ok blocks → next.blocks = r.blocks ++ blocks) ∧
      ∀ refusal, (call.on r).1 = .error refusal → next.blocks = r.blocks) ∧
    (∀ calls : List Call,
      ((new options).after calls).blocks = ((new options).answers calls).flatMap Answer.blocks) ∧
    ∀ text piece : String, piece.toList <+: text.toList →
      text.utf8ByteSize ≤ options.maxBytes →
      ∃ mid last, (new options).Leads [.push piece] mid ∧
        (new options).Leads [.push text, .finish] last ∧ mid.blocks <+: last.blocks := by
  refine ⟨fun calls call => ?_, fun calls => ?_, fun text piece hpiece hroom => ?_⟩
  · intro r next
    refine ⟨?_, fun blocks hok => ?_, fun refusal herror => ?_⟩
    · exact ⟨_, (call.blocks_on r).symm⟩
    · exact call.blocks_of_ok (Prod.ext hok rfl)
    · exact call.blocks_of_error (Prod.ext herror rfl)
  · exact blocks_after (new options) calls
  · obtain ⟨more, rfl⟩ := exists_append_of_prefix hpiece
    have hpush : (new options).Leads [.push piece] ((new options).feedAll piece.toList) := by
      rw [String.utf8ByteSize_append] at hroom
      simpa using leads_pieces (r := new options) rfl [piece] (by simpa using by omega)
    refine ⟨_, _, hpush, leads_text hroom, ?_⟩
    rw [String.toList_append, feedAll_append]
    exact (blocks_prefix_feedAll _ _).trans (blocks_prefix_close _)

/-- The text is cut inside a fence; a piece is too long in between, and the reader is stopped twice. -/
theorem blocks_given_once_open_fence :
    let text := "Hi\n\x60\x60\x60jsx\n<A/>\n\x60\x60\x60\n"
    let piece := "Hi\n\x60\x60\x60jsx\n<A"
    let calls : List Call := [.push piece, .push text, .abort, .abort, .finish]
    ((new { maxBytes := 30 }).answers calls).flatMap Answer.blocks = [.text "Hi"] ∧
      ((new { maxBytes := 30 }).after calls).blocks = [.text "Hi"] ∧
      piece.toList <+: text.toList ∧
      ∃ mid last, (new { maxBytes := 30 }).Leads [.push piece] mid ∧
        (new { maxBytes := 30 }).Leads [.push text, .finish] last ∧
        mid.blocks <+: last.blocks := by
  obtain ⟨-, hblocks, hgrow⟩ := blocks_given_once { maxBytes := 30 }
  exact ⟨by rfl, (hblocks _).trans (by rfl), by decide, hgrow _ _ (by decide) (by decide)⟩

end AgentSurface.Stream
