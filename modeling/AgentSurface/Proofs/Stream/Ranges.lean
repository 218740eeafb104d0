import AgentSurface.Proofs.Stream.Offsets

/-!
# Stream — every range exists

An offset reader is told what a reader is told, and keeps the places of it (`Follows`): one call
keeps this (`Follows.on`), so every list of calls does (`Follows.run`).  While a text arrives, the
places are what `OffsetReader.Sound` says, and of this the reader's own invariant is the whole
reason (`Reader.Streaming.sound`).

* `every_range_exists`: whatever an offset reader is told, no range that it cuts out is missing.
-/

namespace AgentSurface.Stream

/-! ### Calls, one after the other -/

/-- Tell an offset reader. -/
def Call.onOffsets (gap : Gap) (call : Call) (s : OffsetReader) : Option (Answer × OffsetReader) :=
  match call with
  | .push piece => s.push gap piece
  | .pushBytes bytes => s.pushBytes gap bytes
  | .sync full => s.sync gap full
  | .finish => s.finish gap
  | .abort => (s.abort gap).map fun (blocks, next) => (.ok blocks, next)

/-- The answers of some calls, and the offset reader behind them. -/
def OffsetReader.run (gap : Gap) (s : OffsetReader) :
    List Call → Option (List Answer × OffsetReader)
  | [] => some ([], s)
  | call :: rest => do
    let (answer, next) ← call.onOffsets gap s
    let (answers, last) ← next.run gap rest
    return (answer :: answers, last)

/-- A call that gives text leaves a streaming reader streaming. -/
theorem Reader.Streaming.on {r : Reader} (h : r.Streaming) (call : Call) (hcall : call.GivesText) :
    (call.on r).2.Streaming := by
  obtain ⟨s, d, hnext⟩ := r.exists_call hcall
  rw [hnext]
  exact (h.feedAll s).holding d

/-- The offset reader has the places of the reader.  When no text is taken any more, it does not
matter where prose began. -/
inductive Follows : OffsetReader → Reader → Prop where
  | streaming {r : Reader} (h : r.Streaming) : Follows r.withOffsets r
  | stopped {r : Reader} (h : r.phase ≠ .streaming) (start : Nat) :
    Follows { r.withOffsets with textStart := start } r

namespace Follows

variable {r : Reader} {s : OffsetReader}

/-- A reader by offsets has the buffer of the one it follows. -/
theorem buffer_eq (h : Follows s r) : s.buffer = r.buffer := by
  cases h <;> exact r.buffer_withOffsets

theorem blocks_eq (h : Follows s r) : s.blocks = r.blocks := by
  cases h <;> rfl

theorem phase_eq (h : Follows s r) : s.phase = r.phase := by
  cases h <;> rfl

theorem decoder_eq (h : Follows s r) : s.decoder = r.decoder := by
  cases h <;> rfl

theorem holding (h : Follows s r) (d : Text.Utf8.Decoder) :
    Follows { s with decoder := d } (r.holding d) := by
  cases h with
  | streaming h => exact .streaming (h.holding d)
  | stopped h start => exact .stopped (r := r.holding d) h start

/-- What is pending by offsets is what is pending by parts, and is never out of range. -/
theorem pending_eq (h : Follows s r) (gap : Gap) : s.pending gap = some r.pending := by
  cases hr : r.phase with
  | streaming =>
    cases h with
    | streaming h => exact Reader.pending_withOffsets gap h.phase
    | stopped h => exact absurd hr h
  | finished | aborted => simp only [OffsetReader.pending, Reader.pending, h.phase_eq, hr]

/-- A streaming reader's offsets follow it through any call. -/
theorem on_streaming (h : r.Streaming) (call : Call) :
    ∃ next, (∀ gap, call.onOffsets gap r.withOffsets = some ((call.on r).1, next)) ∧
      Follows next (call.on r).2 := by
  cases call with
  | push piece =>
    exact ⟨_, fun gap => Reader.push_withOffsets gap h piece,
      .streaming (h.on (.push piece) trivial)⟩
  | pushBytes bytes =>
    exact ⟨_, fun gap => Reader.pushBytes_withOffsets gap h bytes,
      .streaming (h.on (.pushBytes bytes) trivial)⟩
  | sync full =>
    exact ⟨_, fun gap => Reader.sync_withOffsets gap h full,
      .streaming (h.on (.sync full) trivial)⟩
  | finish =>
    have hphase : r.finish.2.phase ≠ .streaming := by simp [Reader.finish, h.phase]
    exact ⟨_, fun gap => Reader.finish_withOffsets gap h.phase, .stopped hphase _⟩
  | abort =>
    obtain ⟨behind, habort⟩ := r.abort_withOffsets _ fun _ => rfl
    exact ⟨_, fun gap => congrArg (Option.map _) (habort gap), .stopped (by simp [Reader.abort]) _⟩

/-- A reader that takes no text any more cuts a text only to see that it goes on from its own. -/
theorem on_stopped (h : r.phase ≠ .streaming) (start : Nat) (call : Call) :
    ∃ next, (∀ gap, call.onOffsets gap { r.withOffsets with textStart := start } =
      some ((call.on r).1, next)) ∧ Follows next (call.on r).2 := by
  have hstill : Follows { r.withOffsets with textStart := start } r := .stopped h start
  have hstop : ∃ next, (∀ gap, { r.withOffsets with textStart := start }.abort gap =
      some (r.abort.1, next)) ∧ Follows next r.abort.2 := by
    obtain ⟨behind, habort⟩ := r.abort_withOffsets start fun hr => absurd hr h
    exact ⟨_, habort, .stopped (by simp [Reader.abort]) behind⟩
  -- Of the effects that a call can have, those on a streaming reader are ruled out.
  have heffect := call.effect_on r
  generalize (call.on r).1 = answer, (call.on r).2 = next at heffect ⊢
  generalize { r.withOffsets with textStart := start } = s at hstill hstop ⊢
  have hphase := hstill.phase_eq
  have hreceived : s.received = r.buffer.utf8ByteSize := by
    rw [OffsetReader.received, hstill.buffer_eq]
  cases heffect with
  | finished hr hcall =>
    refine ⟨s, fun gap => ?_, hstill⟩
    cases call with
    | abort => exact absurd rfl hcall
    | push | pushBytes | sync | finish =>
      simp only [Call.onOffsets, OffsetReader.push, OffsetReader.pushBytes, OffsetReader.sync,
        OffsetReader.finish, hphase, hr]
  | @notAnExtension full hr hfull =>
    refine ⟨s, fun gap => ?_, hstill⟩
    have hprefix : ¬ s.buffer.toList.isPrefixOf full.toList = true := by
      rw [hstill.buffer_eq, List.isPrefixOf_iff_prefix]
      exact hfull
    have haborted : s.phase = .aborted := by
      cases hs : r.phase with
      | streaming => exact absurd hs h
      | finished => exact absurd hs hr
      | aborted => exact hphase.trans hs
    simp only [Call.onOffsets, OffsetReader.sync, haborted, if_neg hprefix, hreceived,
      Reader.received_eq]
  | noRoom hr | fed hr | closed hr => exact absurd hr h
  | @ignored call text d hr hcall =>
    have haborted : s.phase = .aborted := hphase.trans hr
    cases hcall with
    | push piece =>
      exact ⟨s, fun gap => by simp only [Call.onOffsets, OffsetReader.push, haborted], hstill⟩
    | pushBytes bytes =>
      refine ⟨_, fun gap => ?_, hstill.holding _⟩
      simp only [Call.onOffsets, OffsetReader.pushBytes, OffsetReader.push, haborted,
        hstill.decoder_eq]
    | @sync full _ hfull =>
      have hprefix : s.buffer.toList.isPrefixOf full.toList = true := by
        rw [hstill.buffer_eq, List.isPrefixOf_iff_prefix, hfull, String.toList_append]
        exact List.prefix_append _ _
      refine ⟨s, fun gap => ?_, hstill⟩
      have hcut : gap.cut full s.received full.utf8ByteSize = some text := by
        rw [hreceived, hfull, gap.cut_behind]
      simp only [Call.onOffsets, OffsetReader.sync, haborted, if_pos hprefix, hcut]
      simp only [Option.bind_eq_bind, Option.bind_some, OffsetReader.push, haborted]
  | stillStopped hr =>
    exact ⟨s, fun gap => by simp only [Call.onOffsets, OffsetReader.finish, hphase, hr], hstill⟩
  | stopped =>
    obtain ⟨next, habort, hnext⟩ := hstop
    exact ⟨next, fun gap => congrArg (Option.map _) (habort gap), hnext⟩

/-- The offsets follow the reader through any call, answer for answer. -/
theorem on (h : Follows s r) (call : Call) :
    ∃ next, (∀ gap, call.onOffsets gap s = some ((call.on r).1, next)) ∧
      Follows next (call.on r).2 := by
  cases h with
  | streaming h => exact on_streaming h call
  | stopped h start => exact on_stopped h start call

/-- The offsets follow the reader through any list of calls, answer for answer. -/
theorem run (h : Follows s r) (calls : List Call) :
    ∃ last, (∀ gap, s.run gap calls = some (r.answers calls, last)) ∧
      Follows last (r.after calls) := by
  induction calls generalizing s r with
  | nil => exact ⟨s, fun _ => rfl, h⟩
  | cons call rest ih =>
    obtain ⟨next, hcall, hnext⟩ := h.on call
    obtain ⟨last, hrest, hlast⟩ := ih hnext
    refine ⟨last, fun gap => ?_, hlast⟩
    simp [OffsetReader.run, hcall, hrest]

end Follows

/-! ### What the places are -/

/-- The place is the beginning of the text, or stands behind a line feed. -/
def LineStart (text : String) (place : Nat) : Prop :=
  place = 0 ∨ ∃ before : String, Text.between? text 0 place = some (before.push '\n')

namespace OffsetReader

/-- All places that are kept. -/
def places (s : OffsetReader) : List Nat :=
  s.cursor :: s.textStart :: s.fence.toList.flatMap fun fence => [fence.start, fence.content]

/-- What holds of the places while a text arrives.  They stand between characters, where lines
begin, in this order: the fence or the run of prose, the content of the fence, the open line, the
end of the text.  The lines between are complete, and none of them ends the fence or the run. -/
structure Sound (s : OffsetReader) : Prop where
  ordered : s.textStart ≤ s.cursor ∧ s.cursor ≤ s.received
  boundary : ∀ place ∈ s.places, String.Pos.Raw.IsValid s.buffer ⟨place⟩
  lineStart : ∀ place ∈ s.places, LineStart s.buffer place
  openLine : ∃ line, Text.between? s.buffer s.cursor s.received = some line ∧ '\n' ∉ line.toList
  fence : ∀ fence, s.fence = some fence →
    s.textStart = fence.start ∧ fence.start < fence.content ∧ fence.content ≤ s.cursor ∧
    (∃ opener, Text.between? s.buffer fence.start fence.content = some opener ∧
      Text.Whole opener.toList ∧ Opens s.options fence.kind opener.toList) ∧
    ∃ content, Text.between? s.buffer fence.content s.cursor = some content ∧
      ∀ line ∈ Text.lines content.toList, Text.Whole line ∧ ¬ Closes line
  prose : s.fence = none → ∃ run, Text.between? s.buffer s.textStart s.cursor = some run ∧
    ∀ line ∈ Text.lines run.toList, Text.Whole line ∧ ∀ kind, ¬ Opens s.options kind line

end OffsetReader

/-- Behind whole lines there is a place where a line begins. -/
theorem lineStart_of_whole {whole : List Line} (h : ∀ line ∈ whole, Text.Whole line)
    (rest : String) :
    String.Pos.Raw.IsValid (String.ofList whole.flatten ++ rest)
        ⟨(String.ofList whole.flatten).utf8ByteSize⟩ ∧
      LineStart (String.ofList whole.flatten ++ rest)
        (String.ofList whole.flatten).utf8ByteSize := by
  refine ⟨String.Pos.Raw.isValid_iff_exists_append.2 ⟨_, rest, rfl, rfl⟩, ?_⟩
  rcases List.eq_nil_or_concat whole with rfl | ⟨before, line, rfl⟩
  · exact Or.inl rfl
  · obtain ⟨s, -, rfl⟩ := h line (by simp)
    have hlast : String.ofList (before.concat (s ++ ['\n'])).flatten =
        (String.ofList (before.flatten ++ s)).push '\n' := by
      simp [← String.toList_inj]
    have hpart := Text.between?_append "" ((String.ofList (before.flatten ++ s)).push '\n') rest
    rw [String.empty_append, String.utf8ByteSize_empty] at hpart
    rw [hlast]
    exact Or.inr ⟨_, hpart⟩

namespace Reader.Streaming

variable {r : Reader}

/-- A line begins behind the lines that were settled and the first lines of the run. -/
theorem lineStart (h : r.Streaming) (first : List Line) (rest : String)
    (hfirst : ∀ line ∈ first, Text.Whole line)
    (hrest : r.run.text ++ r.line = String.ofList first.flatten ++ rest) :
    String.Pos.Raw.IsValid r.withOffsets.buffer
        ⟨r.settled.utf8ByteSize + (String.ofList first.flatten).utf8ByteSize⟩ ∧
      LineStart r.withOffsets.buffer
        (r.settled.utf8ByteSize + (String.ofList first.flatten).utf8ByteSize) := by
  obtain ⟨whole, hwhole, hsettled⟩ := h.settled
  have hstart := lineStart_of_whole (List.forall_mem_append.2 ⟨hwhole, hfirst⟩) rest
  rw [List.flatten_append, String.ofList_append, ← hsettled, String.utf8ByteSize_append,
    String.append_assoc, ← hrest] at hstart
  exact hstart

/-- Every offset kept stands at a character and at the start of a line. -/
theorem lineStart_places (h : r.Streaming) : ∀ place ∈ r.withOffsets.places,
    String.Pos.Raw.IsValid r.withOffsets.buffer ⟨place⟩ ∧
      LineStart r.withOffsets.buffer place := by
  have hstart := h.lineStart [] (r.run.text ++ r.line) (List.forall_mem_nil _) (by simp)
  have hcursor : r.withOffsets.cursor = r.settled.utf8ByteSize + r.run.text.utf8ByteSize := rfl
  have hfits := h.run
  generalize hrun : r.run = run at hfits
  cases hfits with
  | @prose run hwhole hprose =>
    have hbehind := h.lineStart run r.line hwhole (by rw [hrun]; rfl)
    have hplaces : r.withOffsets.places =
        [r.settled.utf8ByteSize + (String.ofList run.flatten).utf8ByteSize,
          r.settled.utf8ByteSize] := by
      rw [OffsetReader.places, fence_withOffsets_prose hrun, hcursor, hrun]
      rfl
    rw [hplaces]
    exact List.forall_mem_cons.2 ⟨hbehind, List.forall_mem_singleton.2 hstart⟩
  | @fence kind opener content hwhole hopener hcontent =>
    have hbehind := h.lineStart (opener :: content) r.line hwhole
      (by rw [hrun, Run.text]; simp [String.ofList_append])
    have hinside := h.lineStart [opener] (String.ofList content.flatten ++ r.line)
      (by simpa using hwhole opener (by simp)) (by rw [hrun, Run.text]; simp [String.append_assoc])
    -- The prose begins where the fence does, which is behind what was settled.
    have hplaces : r.withOffsets.places =
        [r.settled.utf8ByteSize + (String.ofList (opener :: content).flatten).utf8ByteSize,
          r.settled.utf8ByteSize, r.settled.utf8ByteSize,
          r.settled.utf8ByteSize + (String.ofList [opener].flatten).utf8ByteSize] := by
      rw [OffsetReader.places, fence_withOffsets_fence hrun, hcursor, hrun, Run.text]
      simp [String.ofList_append]
      rfl
    rw [hplaces]
    exact List.forall_mem_cons.2 ⟨hbehind, List.forall_mem_cons.2 ⟨hstart,
      List.forall_mem_cons.2 ⟨hstart, List.forall_mem_singleton.2 hinside⟩⟩⟩

/-- The offsets of a streaming reader are sound. -/
theorem sound (h : r.Streaming) : r.withOffsets.Sound where
  ordered := by
    have hreceived := r.received_offsets r.line
    constructor
    · exact Nat.le_add_right _ _
    · rw [withOffsets, hreceived]
      exact Nat.le_add_right _ _
  boundary := fun place hplace => (h.lineStart_places place hplace).1
  lineStart := fun place hplace => (h.lineStart_places place hplace).2
  openLine := by
    refine ⟨r.line, Text.between?_eq_some_iff.2 ⟨r.settled ++ r.run.text, "", ?_, ?_, ?_⟩, h.line⟩
    · simp [withOffsets, offsets, String.append_assoc]
    · simp [withOffsets, offsets]
    · rw [withOffsets, received_offsets]
      simp
  fence := by
    intro fence hfence
    have hfits := h.run
    generalize hrun : r.run = run at hfits
    cases hfits with
    | prose => cases (fence_withOffsets_prose hrun).symm.trans hfence
    | @fence kind opener content hwhole hopener hcontent =>
      obtain rfl := Option.some.inj ((fence_withOffsets_fence hrun).symm.trans hfence)
      obtain ⟨hone, hlines⟩ := List.forall_mem_cons.1 hwhole
      have hpos : 0 < (String.ofList opener).utf8ByteSize := by
        obtain ⟨s, -, rfl⟩ := hone
        simp [Nat.pos_iff_ne_zero]
      refine ⟨rfl, Nat.lt_add_of_pos_right hpos, ?_, ⟨String.ofList opener, ?_, ?_, ?_⟩,
        String.ofList content.flatten, ?_, ?_⟩
      · simp [withOffsets, offsets, hrun, Run.text]
      · refine Text.between?_eq_some_iff.2
          ⟨r.settled, String.ofList content.flatten ++ r.line, ?_, rfl, by simp⟩
        simp [withOffsets, offsets, hrun, Run.text, String.append_assoc]
      · rwa [String.toList_ofList]
      · rw [String.toList_ofList]
        exact hopener
      · refine Text.between?_eq_some_iff.2 ⟨r.settled ++ String.ofList opener, r.line, ?_, ?_, ?_⟩
        · simp [withOffsets, offsets, hrun, Run.text, String.append_assoc]
        · simp
        · simp [withOffsets, offsets, hrun, Run.text, Nat.add_assoc]
      · rw [String.toList_ofList, Text.lines_flatten_of_whole hlines]
        exact fun line hline => ⟨hlines line hline, hcontent line hline⟩
  prose := by
    intro hnone
    have hfits := h.run
    generalize hrun : r.run = run at hfits
    cases hfits with
    | fence => cases (fence_withOffsets_fence hrun).symm.trans hnone
    | @prose run hwhole hprose =>
      refine ⟨String.ofList run.flatten, ?_, ?_⟩
      · refine Text.between?_eq_some_iff.2 ⟨r.settled, r.line, ?_, rfl, ?_⟩
        · simp [withOffsets, offsets, hrun, Run.text, String.append_assoc]
        · simp [withOffsets, offsets, hrun, Run.text]
      · rw [String.toList_ofList, Text.lines_flatten_of_whole hwhole]
        exact fun line hline => ⟨hwhole line hline, hprose line hline⟩

end Reader.Streaming

/-- **Every range that is read exists.**  Whatever an offset reader is told, calls that fail
included, it answers as a reader does, and its pending view is that of the reader.  It does so too
where a gap would be fatal, so there is none, in these calls and in those that may follow.  As long
as it is streaming, its places are sound. -/
theorem every_range_exists (options : Options) (calls : List Call) :
    let r := (Reader.new options).after calls
    ∃ s : OffsetReader,
      (∀ gap, (OffsetReader.new options).run gap calls =
        some ((Reader.new options).answers calls, s)) ∧
      (∀ gap, s.pending gap = some r.pending) ∧
      s.buffer = r.buffer ∧ s.blocks = r.blocks ∧ s.phase = r.phase ∧
      (s.phase = .streaming → s.Sound) := by
  intro r
  have hnew : Follows (OffsetReader.new options) (Reader.new options) :=
    .streaming (Reader.streaming_new options)
  obtain ⟨s, hrun, hfollows⟩ := hnew.run calls
  refine ⟨s, hrun, hfollows.pending_eq, hfollows.buffer_eq, hfollows.blocks_eq, hfollows.phase_eq,
    fun hphase => ?_⟩
  cases hfollows with
  | streaming h => exact h.sound
  | stopped h => exact absurd hphase h

end AgentSurface.Stream
