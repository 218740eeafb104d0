import AgentSurface.Proofs.Stream.Delivery
import AgentSurface.Proofs.Stream.Emission
import AgentSurface.Proofs.Stream.Ending
import AgentSurface.Proofs.Stream.Reading

/-!
# Stream — stopping

A reader that is told to stop gives what is settled of its text: all but the line that is not
complete, and but a fence that is still open (`SettledPart`).  Stopping is the end of that text.

* `abort_settles`: a reader that is stopped has the blocks of the settled part of its text, and
  no call adds one to them.
-/

namespace AgentSurface.Stream

/-- The tile has its end: it is prose, or a fence with its closer. -/
def Part.isSettled : Part → Bool
  | .fence _ _ _ none => false
  | .prose _ | .fence _ _ _ (some _) => true

@[simp] theorem Part.isSettled_prose (run : List Line) : (Part.prose run).isSettled = true := rfl

@[simp] theorem Part.isSettled_open (kind : FenceKind) (opener : Line) (content : List Line) :
    (Part.fence kind opener content none).isSettled = false := rfl

@[simp] theorem Part.isSettled_closed (kind : FenceKind) (opener : Line) (content : List Line)
    (closer : Line) : (Part.fence kind opener content (some closer)).isSettled = true := rfl

/-- What is settled of a text: the text up to its last line feed, and without the fence that is
open there. -/
def SettledPart (options : Options) (text settled : String) : Prop :=
  ∃ (whole : List Line) (rest : List Char) (parts : List Part),
    text.toList = whole.flatten ++ rest ∧ (∀ line ∈ whole, Text.Whole line) ∧ '\n' ∉ rest ∧
    Tiling options parts ∧ parts.flatMap Part.lines = whole ∧
    settled.toList = ((parts.filter Part.isSettled).flatMap Part.lines).flatten

/-- Every text has a settled part. -/
theorem exists_settledPart (options : Options) (text : String) :
    ∃ settled, SettledPart options text settled := by
  obtain ⟨whole, rest, htext, hwhole, hrest⟩ := Text.exists_whole_append text.toList
  obtain ⟨parts, hparts, hlines⟩ := exists_tiling options whole
  exact ⟨String.ofList _, whole, rest, parts, htext, hwhole, hrest, hparts, hlines,
    String.toList_ofList⟩

namespace Tiling

variable {options : Options} {parts : List Part}

/-- Without the open fence, the tiles are those of a text. -/
theorem settled (h : Tiling options parts) : Tiling options (parts.filter Part.isSettled) := by
  induction h with
  | last hrun => exact .last hrun
  | unclosed hrun => exact .last hrun
  | closed hrun hopener hcontent hcloser _ ih => exact .closed hrun hopener hcontent hcloser ih

/-- The lines of the open fence stand behind all others. -/
theorem lines_settled_isPrefix (h : Tiling options parts) :
    (parts.filter Part.isSettled).flatMap Part.lines <+: parts.flatMap Part.lines := by
  induction h with
  | last hrun => exact List.prefix_rfl
  | @unclosed run => exact (List.prefix_append_right_inj run).2 List.nil_prefix
  | @closed run _ _ _ _ _ _ _ _ _ _ ih =>
    refine (List.prefix_append_right_inj run).2 ?_
    exact (List.prefix_append_right_inj (Part.lines (.fence _ _ _ (some _)))).2 ih

end Tiling

/-- The blocks of a run that is stopped. -/
def Run.whenStopped : Run → List Block
  | .prose text => proseBlocks text
  | .fence _ _ _ => []

namespace Reader

variable {r : Reader}

/-! ### Stopping while text arrives -/

/-- Aborting adds what the open run gives when it is stopped. -/
theorem blocks_abort (hr : r.phase = .streaming) :
    r.abort.2.blocks = r.blocks ++ r.run.whenStopped := by
  cases hrun : r.run <;> simp [abort, settle, hr, hrun, Run.whenStopped]

/-- Whole lines are taken one after the other. -/
theorem feedAll_flatten {whole : List Line} (h : ∀ line ∈ whole, Text.Whole line)
    (hline : r.line = "") : r.feedAll whole.flatten = r.takeLines whole := by
  induction whole generalizing r with
  | nil => rfl
  | cons line whole ih =>
    obtain ⟨⟨s, hs, rfl⟩, hwhole⟩ := List.forall_mem_cons.1 h
    have hfeed : r.feedAll (s ++ ['\n']) = r.takeLine (String.ofList (s ++ ['\n'])) := by
      have hstart : r.atLineStart = r := by rw [atLineStart, ← hline]
      have htext : (r.line ++ String.ofList s).push '\n' = String.ofList (s ++ ['\n']) := by
        simp [hline, ← String.toList_inj]
      rw [feedAll_append, feedAll_of_not_mem r hs]
      show feed _ '\n' = _
      rw [feed_newline, htext]
      exact congrArg (takeLine · _) hstart
    rw [List.flatten_cons, feedAll_append, hfeed, ih hwhole (by rw [line_takeLine, hline]),
      takeLines_cons]

/-- Where the tiles of some lines lead, the blocks are those of the tiles, if the run is stopped
there. -/
theorem blocks_takeLines_whenStopped {options : Options} {parts : List Part}
    (h : Tiling options parts) (hoptions : r.options = options) (hrun : r.run = .prose "") :
    (r.takeLines (parts.flatMap Part.lines)).blocks ++
      (r.takeLines (parts.flatMap Part.lines)).run.whenStopped =
      r.blocks ++ (parts.filter Part.isSettled).flatMap (Part.blocks options) := by
  induction h generalizing r with
  | last hprose =>
    simp only [List.flatMap_cons, List.flatMap_nil, List.append_nil, Part.lines]
    rw [takeLines_prose hrun (hoptions ▸ hprose)]
    simp [Run.whenStopped, List.filter_cons, Part.blocks]
  | unclosed hprose hopener hcontent =>
    simp only [List.flatMap_cons, List.flatMap_nil, List.append_nil, Part.lines,
      Option.toList_none]
    rw [takeLines_open hrun (hoptions ▸ hprose) (hoptions ▸ hopener) hcontent]
    simp [Run.whenStopped, List.filter_cons, Part.blocks]
  | @closed run kind opener content closer parts hprose hopener hcontent hcloser hparts ih =>
    obtain ⟨settled, hclosed⟩ := takeLines_closed hrun (hoptions ▸ hprose) (hoptions ▸ hopener)
      hcontent hcloser
    rw [flatMap_lines_closed, takeLines_append, hclosed, ih (r := r.moveTo _ _ _) hoptions rfl]
    simp [List.filter_cons, Part.blocks]

/-- Behind a text the reader is where its whole lines lead, with the rest in the open line. -/
theorem blocks_abort_feedAll {whole : List Line} {rest : List Char}
    (hwhole : ∀ line ∈ whole, Text.Whole line) (hrest : '\n' ∉ rest) (options : Options) :
    ((new options).feedAll (whole.flatten ++ rest)).abort.2.blocks =
      ((new options).takeLines whole).blocks ++
        ((new options).takeLines whole).run.whenStopped := by
  rw [blocks_abort (by simp), feedAll_append, feedAll_of_not_mem _ hrest,
    feedAll_flatten hwhole rfl]

/-! ### Behind stopping -/

/-- No call adds a block to a reader that was aborted. -/
theorem after_aborted (hr : r.phase = .aborted) (calls : List Call) :
    (r.after calls).blocks = r.blocks :=
  (after_over (by simp [hr]) calls).2.1

/-- No call to a reader that was aborted is answered with a block. -/
theorem answers_aborted (hr : r.phase = .aborted) (calls : List Call) :
    (r.answers calls).flatMap Answer.blocks = [] := by
  have hblocks := blocks_after r calls
  rw [after_aborted hr] at hblocks
  exact List.self_eq_append_right.1 hblocks

end Reader

open Reader

namespace SettledPart

variable {options : Options} {text settled : String}

/-- The settled part stands in front of the text. -/
theorem isPrefix (h : SettledPart options text settled) : settled.toList <+: text.toList := by
  obtain ⟨whole, rest, parts, htext, -, -, hparts, hlines, hsettled⟩ := h
  obtain ⟨more, hmore⟩ := hparts.lines_settled_isPrefix
  rw [htext, hsettled, ← hlines, ← hmore, List.flatten_append, List.append_assoc]
  exact List.prefix_append _ _

/-- The blocks of a reader that is stopped are those of the settled part, read to its end. -/
theorem blocks_abort (h : SettledPart options text settled) :
    ((new options).feedAll text.toList).abort.2.blocks =
      ((new options).feedAll settled.toList).close.blocks := by
  obtain ⟨whole, rest, parts, htext, hwhole, hrest, hparts, hlines, hsettled⟩ := h
  -- The settled part is cut into the lines of its tiles, all of which are whole.
  have hcut : (parts.filter Part.isSettled).flatMap Part.lines = Text.lines settled.toList := by
    rw [hsettled, Text.lines_flatten_of_whole]
    intro line hline
    exact hwhole line (hlines ▸ hparts.lines_settled_isPrefix.subset hline)
  rw [htext, blocks_abort_feedAll hwhole hrest, hparts.settled.blocks_close hcut, ← hlines,
    blocks_takeLines_whenStopped hparts rfl rfl]
  rfl

end SettledPart

/-- **Stopping is the end of what is settled.**  A text for which there is room is pushed in any
pieces, and then the reader is stopped.  Its blocks are those of the settled part of the text, read
to its end by a new reader with the same options; stopping answers those of them that were not told
before; and whatever the reader is told then, no block is added. -/
theorem abort_settles (options : Options) (pieces : List String)
    (hroom : (String.join pieces).utf8ByteSize ≤ options.maxBytes) :
    let pushes := pieces.map Call.push
    let r := (new options).after pushes
    (new options).Leads (pushes ++ [.abort]) r.abort.2 ∧
      (∃ settled, SettledPart options (String.join pieces) settled) ∧
      (∀ settled, SettledPart options (String.join pieces) settled →
        ∃ last, (new options).Leads [.push settled, .finish] last ∧
          r.abort.2.blocks = last.blocks ∧
          ((new options).answers pushes).flatMap Answer.blocks ++ r.abort.1 = last.blocks) ∧
      ∀ calls, (r.abort.2.after calls).blocks = r.abort.2.blocks ∧
        (r.abort.2.answers calls).flatMap Answer.blocks = [] := by
  intro pushes r
  have hpushed : (new options).Leads pushes ((new options).feedAll (String.join pieces).toList) :=
    leads_pieces rfl pieces (by simpa using hroom)
  have hr : r = (new options).feedAll (String.join pieces).toList := hpushed.2
  have hstop : r.Leads [.abort] r.abort.2 := .cons rfl (.nil _)
  refine ⟨(hr ▸ hpushed).append hstop, exists_settledPart _ _, fun settled h => ?_,
    fun calls => ⟨after_aborted r.phase_abort calls, answers_aborted r.phase_abort calls⟩⟩
  -- The settled part is not longer than the text, so there is room for it.
  obtain ⟨more, hmore⟩ := exists_append_of_prefix h.isPrefix
  rw [hmore, String.utf8ByteSize_append] at hroom
  have hlast : r.abort.2.blocks = ((new options).feedAll settled.toList).close.blocks := by
    rw [hr, h.blocks_abort]
  have htold : ((new options).answers pushes).flatMap Answer.blocks = r.blocks :=
    (blocks_after (new options) pushes).symm
  refine ⟨_, leads_text (by omega), hlast, ?_⟩
  rw [htold, ← hlast, blocks_of_abort]

/-- The reader is stopped inside a fence, behind a whole line of it and inside the next one. -/
theorem abort_settles_in_fence :
    let pieces := ["Hi\n\n\x60", "\x60\x60jsx\n<A>\n<B"]
    let r := (new {}).after (pieces.map Call.push)
    SettledPart {} (String.join pieces) "Hi\n\n" ∧ r.abort.2.blocks = [.text "Hi"] ∧
      ∃ last, (new {}).Leads [.push "Hi\n\n", .finish] last ∧ r.abort.2.blocks = last.blocks := by
  intro pieces r
  have hprose : ∀ line ∈ [['H', 'i', '\n'], ['\n']], ∀ kind, ¬ Opens {} kind line :=
    fun line hline => opener?_eq_none_iff.1 (by revert line; decide)
  have hopener : Opens {} .jsx (marker ++ ['j', 's', 'x', '\n']) :=
    opener?_eq_some_iff.1 (by decide)
  have hcontent : ∀ line ∈ [['<', 'A', '>', '\n']], ¬ Closes line :=
    fun line hline => isCloser_iff.not.1 (by revert line; decide)
  have hwhole : ∀ s : List Char, '\n' ∉ s → Text.Whole (s ++ ['\n']) := fun s hs => ⟨s, hs, rfl⟩
  have hsettled : SettledPart {} (String.join pieces) "Hi\n\n" := by
    refine ⟨_, ['<', 'B'], _, ?_, ?_, by decide, .unclosed hprose hopener hcontent, rfl, rfl⟩
    · decide
    · simpa [Part.lines] using ⟨hwhole ['H', 'i'] (by decide), hwhole [] (by decide),
        hwhole (marker ++ ['j', 's', 'x']) (by decide), hwhole ['<', 'A', '>'] (by decide)⟩
  obtain ⟨-, -, hall, -⟩ := abort_settles {} pieces (by decide)
  obtain ⟨last, hlast, hblocks, -⟩ := hall _ hsettled
  exact ⟨hsettled, rfl, last, hlast, hblocks⟩

end AgentSurface.Stream
