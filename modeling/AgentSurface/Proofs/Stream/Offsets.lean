import AgentSurface.Proofs.Stream.Effects
import AgentSurface.Proofs.Stream.Pending
import AgentSurface.Stream.Offsets

/-!
# Stream — the places of a reader

A `Reader` keeps what it received in parts, and an `OffsetReader` in one piece with places in it.
`Reader.offsets` counts these places out, and each thing that an offset reader does leads from the
places of a reader to those of the next one, with every range that it cuts out on the way.

* `takeLine_offsets`: one line.
* `scan_offsets`: all lines of a piece, which a reader takes character by character.
* `push_withOffsets` and the lemmas beside it: one for each call, and one for the pending view.
-/

namespace AgentSurface.Stream

open Text (isBlank)

/-! ### What is cut out of a text -/

/-- A range that is there is cut out, whatever is done about the others. -/
theorem Gap.cut_append (gap : Gap) (before behind : String) {part text : String} {start stop : Nat}
    (htext : text = before ++ (part ++ behind)) (hstart : start = before.utf8ByteSize)
    (hstop : stop = before.utf8ByteSize + part.utf8ByteSize) :
    gap.cut text start stop = some part := by
  have hpart : Text.between? text start stop = some part := by
    rw [htext, hstart, hstop, ← String.append_assoc, ← String.utf8ByteSize_append]
    exact Text.between?_append before part behind
  cases gap <;> simp only [cut, hpart]

/-- The bytes behind a string, up to the end, are what was put behind it, whatever a broken range
gives. -/
theorem Gap.cut_behind (gap : Gap) (before part : String) :
    gap.cut (before ++ part) before.utf8ByteSize (before ++ part).utf8ByteSize = some part :=
  gap.cut_append before "" (by rw [String.append_empty]) rfl String.utf8ByteSize_append

namespace Reader

variable {r : Reader}

/-- Where the run of a reader lies, if it is a fence. -/
def openFence? (r : Reader) : Option OpenFence :=
  match r.run with
  | .prose _ => none
  | .fence kind opener _ =>
    some ⟨kind, r.settled.utf8ByteSize, r.settled.utf8ByteSize + opener.utf8ByteSize⟩

/-- The places in the text of a reader, when `rest` stands behind its complete lines. -/
def offsets (r : Reader) (rest : String) : OffsetReader where
  options := r.options
  buffer := r.settled ++ (r.run.text ++ rest)
  cursor := r.settled.utf8ByteSize + r.run.text.utf8ByteSize
  textStart := r.settled.utf8ByteSize
  fence := r.openFence?
  blocks := r.blocks
  phase := r.phase
  decoder := r.decoder

/-- The bytes received are those settled, those of the open run and those of the open line. -/
theorem received_offsets (r : Reader) (rest : String) : (r.offsets rest).received =
    r.settled.utf8ByteSize + r.run.text.utf8ByteSize + rest.utf8ByteSize := by
  simp [OffsetReader.received, offsets, Nat.add_assoc]

/-! ### Lines -/

/-- The line may lack its line feed. -/
theorem takeLine_offsets (gap : Gap) (r : Reader) (line feed rest : String)
    (hfeed : ∀ c ∈ feed.toList, isBlank c = true) :
    let start := r.settled.utf8ByteSize + r.run.text.utf8ByteSize
    let stop := start + line.utf8ByteSize
    (r.offsets (line ++ feed ++ rest)).takeLine gap start stop (stop + feed.utf8ByteSize) =
      some ((r.takeLine (line ++ feed)).offsets rest) := by
  intro start stop
  have hline : gap.cut (r.settled ++ (r.run.text ++ (line ++ feed ++ rest))) start stop =
      some line :=
    gap.cut_append (r.settled ++ r.run.text) (feed ++ rest)
      (by simp [String.append_assoc]) (by simp [start]) (by simp [start, stop])
  have hopener : r.options.opener? (line ++ feed).toList = r.options.opener? line.toList := by
    rw [String.toList_append, opener?_append_blank _ _ hfeed]
  have hcloser : isCloser (line ++ feed).toList = isCloser line.toList := by
    rw [String.toList_append, isCloser_append_blank _ hfeed]
  simp only [OffsetReader.takeLine, OffsetReader.classify, offsets, hline, takeLine, hopener,
    hcloser, openFence?, start, stop]
  cases hrun : r.run with
  | prose text =>
    cases hkind : r.options.opener? line.toList with
    | none => simp [hkind, Run.text, String.append_assoc, Nat.add_assoc]
    | some kind =>
      have htext : gap.cut (r.settled ++ (text ++ (line ++ (feed ++ rest))))
          r.settled.utf8ByteSize (r.settled.utf8ByteSize + text.utf8ByteSize) = some text :=
        gap.cut_append r.settled (line ++ (feed ++ rest)) rfl rfl rfl
      simp [hkind, Run.text, OffsetReader.settleProse, htext, String.append_assoc, Nat.add_assoc]
  | fence kind opener content =>
    by_cases hclose : isCloser line.toList = true
    · have hcontent : gap.cut (r.settled ++ (opener ++ (content ++ (line ++ (feed ++ rest)))))
          (r.settled.utf8ByteSize + opener.utf8ByteSize)
          (r.settled.utf8ByteSize + (opener.utf8ByteSize + content.utf8ByteSize)) = some content :=
        gap.cut_append (r.settled ++ opener) (line ++ (feed ++ rest))
          (by rw [String.append_assoc]) (by simp) (by simp [Nat.add_assoc])
      simp [hclose, Run.text, hcontent, String.append_assoc, Nat.add_assoc]
    · simp [hclose, Run.text, String.append_assoc, Nat.add_assoc]

/-- What lies behind the cursor is the line that is still open. -/
theorem cut_open_line (gap : Gap) (r : Reader) (rest : String) :
    gap.cut (r.offsets rest).buffer (r.offsets rest).cursor (r.offsets rest).received =
      some rest :=
  gap.cut_append (r.settled ++ r.run.text) ""
    (by simp [offsets, String.append_assoc]) (by simp [offsets])
    (by rw [received_offsets]; simp)

/-- Scanning the offsets goes line by line to where reading the characters leads. -/
theorem scan_offsets (gap : Gap) (r : Reader) (h : '\n' ∉ r.line.toList) (s : List Char) :
    (r.offsets (r.line ++ String.ofList s)).scan gap =
      some ((r.feedAll s).offsets (r.feedAll s).line) := by
  by_cases hfeed : '\n' ∈ s
  · obtain ⟨before, behind, rfl, hbefore⟩ := List.eq_append_cons_of_mem hfeed
    let line := r.line ++ String.ofList before
    have htext : r.line ++ String.ofList (before ++ '\n' :: behind) =
        line ++ "\n" ++ String.ofList behind := by
      simp [line, ← String.toList_inj]
    have hplace : Text.bytesBefore? '\n' (line ++ "\n" ++ String.ofList behind).toList =
        some line.utf8ByteSize := by
      have hline : '\n' ∉ line.toList := by simp [line, h, hbefore]
      have hplace := Text.bytesBefore?_append hline behind
      rw [Text.byteLength_toList] at hplace
      simpa using hplace
    -- The line up to the line feed is taken, and the open line is empty behind it.
    let next := r.atLineStart.takeLine (line ++ "\n")
    have hnext : next.line = "" := line_takeLine _ _
    have hfeedAll : r.feedAll (before ++ '\n' :: behind) = next.feedAll behind := by
      rw [feedAll_append, feedAll_of_not_mem r hbefore]
      show (Reader.feed _ '\n').feedAll behind = _
      rw [feed_newline, String.push_eq_append]
      rfl
    have htake : (r.offsets (line ++ "\n" ++ String.ofList behind)).takeLine gap _ _ _ =
        some (next.offsets (String.ofList behind)) :=
      r.atLineStart.takeLine_offsets gap line "\n" _ (by simp [Text.isBlank])
    rw [htext, OffsetReader.scan_of_feed gap (cut_open_line gap r _) hplace, hfeedAll]
    refine (congrArg (·.bind (OffsetReader.scan gap)) htake).trans ?_
    have hscan := scan_offsets gap next (by simp [hnext]) behind
    rwa [hnext, String.empty_append] at hscan
  · have hnone : Text.bytesBefore? '\n' (r.line ++ String.ofList s).toList = none :=
      Text.bytesBefore?_of_not_mem (by simp [h, hfeed])
    rw [OffsetReader.scan_of_no_feed gap (cut_open_line gap r _) hnone, feedAll_of_not_mem r hfeed]
    rfl
termination_by s.length

/-! ### Calls -/

/-- The places in the text that a reader received. -/
def withOffsets (r : Reader) : OffsetReader := r.offsets r.line

theorem buffer_withOffsets (r : Reader) : r.withOffsets.buffer = r.buffer := by
  simp [withOffsets, offsets, buffer, String.append_assoc]

theorem received_withOffsets (r : Reader) : r.withOffsets.received = r.received := by
  rw [received_eq, OffsetReader.received, buffer_withOffsets]

/-- Receiving a piece lengthens the open line and moves no offset. -/
theorem receive_withOffsets (r : Reader) (piece : String) :
    r.withOffsets.receive piece = r.offsets (r.line ++ piece) := by
  simp [OffsetReader.receive, withOffsets, offsets, String.append_assoc]

/-- A push gives the same answer by offsets as by the reader that keeps its parts, and the offsets
of the same state. -/
theorem push_withOffsets (gap : Gap) (h : r.Streaming) (piece : String) :
    r.withOffsets.push gap piece = some ((r.push piece).1, (r.push piece).2.withOffsets) := by
  have hphase : r.withOffsets.phase = .streaming := h.phase
  have hoptions : r.withOffsets.options = r.options := rfl
  have hscan : (r.withOffsets.receive piece).scan gap =
      some (r.feedAll piece.toList).withOffsets := by
    have hscan := scan_offsets gap r h.line piece.toList
    rwa [String.ofList_toList, ← receive_withOffsets] at hscan
  simp only [OffsetReader.push, push, hphase, h.phase, received_withOffsets, hoptions, hscan]
  split <;> rfl

/-- Bytes give the same answer by offsets as by the reader that keeps its parts. -/
theorem pushBytes_withOffsets (gap : Gap) (h : r.Streaming) (bytes : List UInt8) :
    r.withOffsets.pushBytes gap bytes =
      some ((r.pushBytes bytes).1, (r.pushBytes bytes).2.withOffsets) := by
  have hpush := push_withOffsets gap (h.holding (r.decoder.decode bytes).2)
    (r.decoder.decode bytes).1
  rw [pushBytes_eq (by simp [h.phase]), ← hpush, OffsetReader.pushBytes]
  split
  · next hphase => cases h.phase.symm.trans hphase
  · rfl
  · rfl

/-- A sync gives the same answer by offsets as by the reader that keeps its parts. -/
theorem sync_withOffsets (gap : Gap) (h : r.Streaming) (full : String) :
    r.withOffsets.sync gap full = some ((r.sync full).1, (r.sync full).2.withOffsets) := by
  have hphase : r.withOffsets.phase = .streaming := h.phase
  simp only [OffsetReader.sync, hphase, buffer_withOffsets]
  split
  · next hprefix =>
    obtain ⟨rest, hfull⟩ := exists_append_of_prefix (List.isPrefixOf_iff_prefix.1 hprefix)
    have hcut : gap.cut full r.withOffsets.received full.utf8ByteSize = some rest := by
      rw [received_withOffsets, received_eq, hfull, gap.cut_behind]
    rw [hcut, sync_eq (by simp [h.phase]) hfull]
    exact push_withOffsets gap h rest
  · next hprefix =>
    simp [sync, h.phase, hprefix, received_withOffsets]

theorem fence_withOffsets_prose {text : String} (h : r.run = .prose text) :
    r.withOffsets.fence = none := by
  simp [withOffsets, offsets, openFence?, h]

theorem fence_withOffsets_fence {kind : FenceKind} {opener content : String}
    (h : r.run = .fence kind opener content) :
    r.withOffsets.fence =
      some ⟨kind, r.settled.utf8ByteSize, r.settled.utf8ByteSize + opener.utf8ByteSize⟩ := by
  simp [withOffsets, offsets, openFence?, h]

/-- Without an open line, the run goes to the end of the text. -/
theorem settle_withOffsets (gap : Gap) (h : r.line = "") :
    (r.withOffsets.settle gap).map
      (fun s => { s with textStart := r.received, phase := .finished }) =
        some r.close.withOffsets := by
  have hend : r.received = r.settled.utf8ByteSize + r.run.text.utf8ByteSize := by
    simp [received_eq, buffer, h]
  have hreceived : r.withOffsets.received = r.settled.utf8ByteSize + r.run.text.utf8ByteSize := by
    rw [received_withOffsets, hend]
  have hbuffer : r.withOffsets.buffer = r.settled ++ r.run.text := by
    simp [withOffsets, offsets, h]
  rw [OffsetReader.settle, hend]
  cases hrun : r.run with
  | prose text =>
    rw [hrun, Run.text] at hreceived hbuffer
    have htext : gap.cut r.withOffsets.buffer r.withOffsets.textStart r.withOffsets.received =
        some text :=
      gap.cut_append r.settled "" (by rw [hbuffer, String.append_empty]) rfl hreceived
    rw [fence_withOffsets_prose hrun]
    simp only [OffsetReader.settleProse, htext]
    simp [withOffsets, offsets, close, settle, openFence?, hrun, Run.text, Run.atEnd, h]
  | fence kind opener content =>
    rw [hrun, Run.text] at hreceived hbuffer
    have hcontent : gap.cut r.withOffsets.buffer
        (min (r.settled.utf8ByteSize + opener.utf8ByteSize) r.withOffsets.received)
        r.withOffsets.received = some content :=
      gap.cut_append (r.settled ++ opener) ""
        (by rw [hbuffer, String.append_empty, String.append_assoc])
        (by simp [hreceived]) (by simp [hreceived, Nat.add_assoc])
    have hraw : gap.cut r.withOffsets.buffer r.settled.utf8ByteSize r.withOffsets.received =
        some (opener ++ content) :=
      gap.cut_append r.settled "" (by rw [hbuffer, String.append_empty]) rfl hreceived
    have hoptions : r.withOffsets.options = r.options := rfl
    have hsettle : r.withOffsets.settleFence gap
        ⟨kind, r.settled.utf8ByteSize, r.settled.utf8ByteSize + opener.utf8ByteSize⟩ =
          some { r.withOffsets with
            blocks := r.blocks ++ Run.atEnd r.options (.fence kind opener content) } := by
      simp only [OffsetReader.settleFence, hcontent, hraw, hoptions, Run.atEnd, Option.bind_eq_bind,
        Option.bind_some]
      by_cases hblank : content.toList.all isBlank = true
      · rw [if_pos hblank, if_pos hblank, List.append_nil]
        rfl
      · rw [if_neg hblank, if_neg hblank]
        split <;> rfl
    rw [fence_withOffsets_fence hrun]
    simp only [hsettle]
    simp [withOffsets, offsets, close, settle, openFence?, hrun, Run.text, h]

/-- At the end of the text the open line is a line, if there is one. -/
theorem close_withOffsets (gap : Gap) (r : Reader) :
    r.withOffsets.close gap = some r.close.withOffsets := by
  have hcursor : r.withOffsets.received = r.withOffsets.cursor + r.line.utf8ByteSize := by
    rw [withOffsets, received_offsets]
    rfl
  have hread : ∃ next : Reader, next.line = "" ∧ next.received = r.received ∧
      next.close = r.close ∧ r.withOffsets.takeLast gap = some next.withOffsets := by
    by_cases hline : r.line = ""
    · exact ⟨r, hline, rfl, rfl, if_neg (by simp [hcursor, hline])⟩
    · have hpos : 0 < r.line.utf8ByteSize := by simpa [Nat.pos_iff_ne_zero] using hline
      have htake := r.atLineStart.takeLine_offsets gap r.line "" "" (by simp)
      simp only [String.append_empty, String.utf8ByteSize_empty, Nat.add_zero] at htake
      refine ⟨r.atLineStart.takeLine r.line, line_takeLine _ _, ?_, (close_of_line hline).symm, ?_⟩
      · rw [received_eq, received_eq, buffer, line_takeLine, text_takeLine]
        simp [atLineStart, buffer]
      · rw [OffsetReader.takeLast, if_pos (by omega), hcursor]
        refine htake.trans ?_
        rw [withOffsets, line_takeLine]
        rfl
  obtain ⟨next, hline, hreceived, hclose, hread⟩ := hread
  have hsettle := settle_withOffsets gap hline
  rw [OffsetReader.close, hread, ← hclose, ← hsettle, received_withOffsets, hreceived,
    Option.map_eq_bind]
  rfl

/-- What is held back makes the open line longer. -/
theorem finish_withOffsets (gap : Gap) (h : r.phase = .streaming) :
    r.withOffsets.finish gap = some (r.finish.1, r.finish.2.withOffsets) := by
  have hphase : r.withOffsets.phase = .streaming := h
  obtain ⟨blocks, hfinish⟩ := finish_eq h
  have hanswer : r.finish.1 = .ok (r.finish.2.blocksSince r.blocks.length) := by
    simp only [finish, h]
  have hwhole : { r.withOffsets.receive r.decoder.flush.1 with decoder := r.decoder.flush.2 } =
      ((r.feedAll r.heldBack).holding ⟨[]⟩).withOffsets := by
    rw [feedAll_of_not_mem r r.not_mem_heldBack, heldBack, String.ofList_toList,
      receive_withOffsets]
    rfl
  have hclose := close_withOffsets gap ((r.feedAll r.heldBack).holding ⟨[]⟩)
  rw [← hwhole] at hclose
  simp only [OffsetReader.finish, hphase]
  rw [hanswer, hfinish]
  exact congrArg (Option.bind · fun next : OffsetReader =>
    some ((.ok (next.blocks.drop r.blocks.length) : Answer), next)) hclose

/-- Behind a stop, where prose began does not matter any more. -/
theorem abort_withOffsets (r : Reader) (start : Nat)
    (h : r.phase = .streaming → start = r.settled.utf8ByteSize) :
    ∃ behind, ∀ gap, { r.withOffsets with textStart := start }.abort gap =
      some (r.abort.1, { r.abort.2.withOffsets with textStart := behind }) := by
  have hphase : r.withOffsets.phase = r.phase := rfl
  by_cases hprose : r.phase = .streaming ∧ r.withOffsets.fence = none
  · obtain ⟨hstreaming, hfence⟩ := hprose
    obtain rfl := h hstreaming
    cases hrun : r.run with
    | prose text =>
      refine ⟨r.withOffsets.cursor, fun gap => ?_⟩
      have htext : gap.cut r.withOffsets.buffer r.settled.utf8ByteSize r.withOffsets.cursor =
          some text :=
        gap.cut_append r.settled r.line (by simp [withOffsets, offsets, hrun, Run.text]) rfl
          (by simp [withOffsets, offsets, hrun, Run.text])
      simp only [OffsetReader.abort, hphase, hstreaming, hfence, true_and, if_true,
        OffsetReader.settleProse, htext]
      simp [withOffsets, offsets, abort, settle, blocksSince, openFence?, hrun, Run.text,
        hstreaming, String.append_assoc]
    | fence kind opener content => cases (fence_withOffsets_fence hrun).symm.trans hfence
  · refine ⟨start, fun gap => ?_⟩
    have hlast : r.abort.2 = { settle r [] with phase := .aborted } := by
      rw [abort]
      split
      · next hstreaming hrun => exact absurd ⟨hstreaming, fence_withOffsets_prose hrun⟩ hprose
      · rfl
    have hblocks : r.abort.1 = r.abort.2.blocksSince r.blocks.length := rfl
    simp only [OffsetReader.abort, hphase, if_neg hprose, hblocks, hlast]
    simp [withOffsets, offsets, settle, blocksSince, openFence?, Run.text, String.append_assoc]

/-- The pending view is cut out between places that are there. -/
theorem pending_withOffsets (gap : Gap) (h : r.phase = .streaming) :
    r.withOffsets.pending gap = some r.pending := by
  have hphase : r.withOffsets.phase = .streaming := h
  have hline : gap.cut r.withOffsets.buffer r.withOffsets.cursor r.withOffsets.received =
      some r.line := cut_open_line gap r r.line
  -- What is shown ends before the open line, or with it.
  have hvisible : ∃ behind, r.line = r.visibleLine ++ behind ∧
      (if (Text.trimStart r.line.toList).head? = some '\x60' then r.withOffsets.cursor
        else r.withOffsets.received) =
      r.settled.utf8ByteSize + r.run.text.utf8ByteSize + r.visibleLine.utf8ByteSize := by
    unfold visibleLine
    split
    · exact ⟨r.line, by simp, by simp [withOffsets, offsets]⟩
    · exact ⟨"", by simp, by rw [withOffsets, received_offsets]⟩
  obtain ⟨behind, hlast, hvisible⟩ := hvisible
  have hbuffer : r.withOffsets.buffer =
      r.settled ++ (r.run.text ++ (r.visibleLine ++ behind)) := by
    rw [← hlast]
    rfl
  simp only [OffsetReader.pending, hphase, hline, Option.bind_eq_bind, Option.bind_some, hvisible,
    pending, h]
  cases hrun : r.run with
  | prose text =>
    rw [hrun, Run.text] at hbuffer
    have hshown : gap.cut r.withOffsets.buffer r.withOffsets.textStart
        (r.settled.utf8ByteSize + text.utf8ByteSize + r.visibleLine.utf8ByteSize) =
          some (text ++ r.visibleLine) :=
      gap.cut_append r.settled behind (by rw [hbuffer, String.append_assoc]) rfl
        (by simp [Nat.add_assoc])
    rw [fence_withOffsets_prose hrun]
    simp only [Run.text, hshown]
    rfl
  | fence kind opener content =>
    rw [hrun, Run.text] at hbuffer
    have hshown : gap.cut r.withOffsets.buffer (r.settled.utf8ByteSize + opener.utf8ByteSize)
        (r.settled.utf8ByteSize + (opener ++ content).utf8ByteSize + r.visibleLine.utf8ByteSize) =
          some (content ++ r.visibleLine) :=
      gap.cut_append (r.settled ++ opener) behind
        (by simp [hbuffer, String.append_assoc]) (by simp) (by simp [Nat.add_assoc])
    rw [fence_withOffsets_fence hrun]
    simp only [Run.text, hshown]
    cases kind <;> rfl

end Reader

end AgentSurface.Stream
