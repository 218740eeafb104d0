import AgentSurface.Proofs.Stream.Emission
import AgentSurface.Proofs.Stream.Reading

/-!
# Stream — what is shown is kept

The pending view of a reader shows the end of the text before it is settled.  Whatever text comes
later, nothing that it showed has to be taken back: of the open line it shows either nothing, or
blanks that are stripped when they stand at the end, or the beginning of a line that can not be a
marker any more (`exists_kept`).

* `pending_kept`: a shown text is the beginning of the next block, and the shown content of a fence
  without the blanks at its end is the beginning of the content that the fence is read with.
-/

namespace AgentSurface.Stream

open Text (isBlank isBreak Strips)

/-! ### Markers begin with a backquote -/

/-- Behind the blanks at its beginning the line has a backquote. -/
def LooksLikeMarker (line : Line) : Prop := (Text.trimStart line).head? = some '\x60'

theorem looksLikeMarker_of_strips {line : Line} (rest : List Char)
    (h : Strips isBlank isBlank line ('\x60' :: rest)) : LooksLikeMarker line := by
  obtain ⟨before, behind, rfl, hbefore, -⟩ := h.parts
  rw [LooksLikeMarker, Text.trimStart, List.append_assoc, Text.dropWhile_append_of_all hbefore]
  rfl

/-- A line that opens a fence looks like a marker. -/
theorem Opens.looksLikeMarker {options : Options} {kind : FenceKind} {line : Line}
    (h : Opens options kind line) : LooksLikeMarker line := by
  obtain ⟨rest, tag, hline, -, -⟩ := h
  exact looksLikeMarker_of_strips ('\x60' :: '\x60' :: rest) hline

/-- A line that closes a fence looks like a marker. -/
theorem Closes.looksLikeMarker {line : Line} (h : Closes line) : LooksLikeMarker line :=
  looksLikeMarker_of_strips ['\x60', '\x60'] h

/-- A line that begins with something else than blanks and a backquote stays so. -/
theorem not_looksLikeMarker_append {line : Line} (hne : Text.trimStart line ≠ [])
    (h : ¬ LooksLikeMarker line) (more : List Char) : ¬ LooksLikeMarker (line ++ more) := by
  simp only [LooksLikeMarker, Text.trimStart] at hne h ⊢
  rw [List.dropWhile_append, if_neg (by simpa using hne), List.head?_append_of_ne_nil _ hne]
  exact h

/-! ### Growing prose -/

/-- More text behind a run of prose only makes its text longer. -/
theorem prose?_append {run shown : List Char} (h : prose? run = some shown) (more : List Char) :
    ∃ text, prose? (run ++ more) = some text ∧ shown <+: text := by
  obtain ⟨hstrips, hne⟩ := prose?_eq_some_iff.1 h
  have hprefix : shown <+: (Text.dropEndWhile isBlank (run ++ more)).dropWhile isBreak := by
    rw [← hstrips.eq hne]
    exact Text.dropWhile_isPrefix (Text.dropEndWhile_prefix_append isBlank run more)
  exact ⟨_, prose?_eq_some_iff.2 ⟨Text.strips_dropWhile_dropEndWhile _ _ _,
    hprefix.ne_nil hne⟩, hprefix⟩

/-- Blanks behind a prose run do not show. -/
theorem prose?_append_blanks (run : List Char) {blanks : List Char}
    (h : ∀ c ∈ blanks, isBlank c = true) : prose? (run ++ blanks) = prose? run := by
  rw [prose?_eq, prose?_eq, Text.dropEndWhile_append_of_all run h]

/-- The run consists of whole lines, as the grammar has them. -/
inductive Run.Fits (options : Options) : Run → Prop where
  | prose {run : List Line} (hwhole : ∀ line ∈ run, Text.Whole line)
    (hrun : ∀ line ∈ run, ∀ kind, ¬ Opens options kind line) :
    Run.Fits options (.prose (String.ofList run.flatten))
  | fence {kind : FenceKind} {opener : Line} {content : List Line}
    (hwhole : ∀ line ∈ opener :: content, Text.Whole line) (hopener : Opens options kind opener)
    (hcontent : ∀ line ∈ content, ¬ Closes line) :
    Run.Fits options (.fence kind (String.ofList opener) (String.ofList content.flatten))

namespace Reader

variable {r : Reader}

/-! ### The open line -/

/-- What is shown of the open line: some of the lines before the next marker, and blanks. -/
theorem exists_kept (h : '\n' ∉ r.line.toList) {P : Line → Prop}
    (hP : ∀ line, P line → LooksLikeMarker line) {more : List Char} {run rest : List Line}
    (hlines : Text.lines (r.line.toList ++ more) = run ++ rest)
    (hrest : ∀ line ∈ rest.head?, P line) :
    ∃ kept blanks, r.visibleLine.toList = kept ++ blanks ∧ kept <+: run.flatten ∧
      ∀ c ∈ blanks, isBlank c = true := by
  unfold visibleLine
  split
  · exact ⟨[], [], by simp, List.nil_prefix, by simp⟩
  · next hmarker =>
    by_cases hblank : Text.trimStart r.line.toList = []
    · exact ⟨[], r.line.toList, by simp, List.nil_prefix, List.dropWhile_eq_nil_iff.1 hblank⟩
    · -- The line can not be a marker, so the lines before the next marker begin with it.
      have hne : r.line.toList ≠ [] := fun hnil => hblank (by rw [hnil]; rfl)
      obtain ⟨x, tail, hfirst⟩ : ∃ x tail, Text.lines (r.line.toList ++ more) =
          (r.line.toList ++ x) :: tail := ⟨_, _, Text.lines_append_of_not_mem h hne more⟩
      rw [hfirst] at hlines
      refine ⟨r.line.toList, [], by simp, ?_, by simp⟩
      cases run with
      | nil =>
        rw [List.nil_append] at hlines
        rw [← hlines] at hrest
        exact absurd (hP _ (hrest _ rfl)) (not_looksLikeMarker_append hblank hmarker x)
      | cons line run =>
        obtain ⟨rfl, -⟩ := List.cons.inj hlines
        exact ⟨x ++ run.flatten, by simp⟩

/-! ### What lines settle -/

/-- Blocks that were given are not taken back. -/
theorem exists_blocks_close (hline : r.line = "") (lines : List Line) :
    ∃ more, (r.takeLines lines).close.blocks = r.blocks ++ more := by
  induction lines generalizing r with
  | nil => exact ⟨_, blocks_close hline⟩
  | cons line rest ih =>
    obtain ⟨first, hfirst⟩ := blocks_prefix_takeLine r (String.ofList line)
    obtain ⟨more, hmore⟩ := ih ((line_takeLine r _).trans hline)
    exact ⟨first ++ more, by rw [takeLines_cons, hmore, ← hfirst, List.append_assoc]⟩

/-- A run of prose goes on until a line opens a fence, and then it is settled. -/
theorem exists_prose_close {text : String} (hrun : r.run = .prose text) (hline : r.line = "")
    (lines : List Line) :
    ∃ run rest more, lines = run ++ rest ∧
      (∀ line ∈ run, ∀ kind, ¬ Opens r.options kind line) ∧
      (∀ line ∈ rest.head?, ∃ kind, Opens r.options kind line) ∧
      (r.takeLines lines).close.blocks =
        r.blocks ++ proseBlocks (text ++ String.ofList run.flatten) ++ more := by
  rcases exists_first (fun line => ∃ kind, Opens r.options kind line) lines with
    hnone | ⟨run, opener, behind, rfl, hfirst, kind, hopener⟩
  · have hprose : ∀ line ∈ lines, ∀ kind, ¬ Opens r.options kind line :=
      fun line h kind hk => hnone line h ⟨kind, hk⟩
    refine ⟨lines, [], [], by simp, hprose, by simp, ?_⟩
    rw [takeLines_prose hrun hprose, blocks_close (r := r.moveTo _ _ _) hline]
    simp [Run.atEnd]
  · have hprose : ∀ line ∈ run, ∀ kind, ¬ Opens r.options kind line :=
      fun line h kind hk => hfirst line h ⟨kind, hk⟩
    refine ⟨run, opener :: behind, ?_⟩
    rw [takeLines_append, takeLines_prose hrun hprose, takeLines_cons,
      takeLine_opener (run_moveTo _ _ _ _) hopener, moveTo_moveTo]
    obtain ⟨more, hmore⟩ := exists_blocks_close (r := r.moveTo _ _ _) hline behind
    exact ⟨more, rfl, hprose, fun line h => ⟨kind, Option.some.inj h ▸ hopener⟩, hmore⟩

/-- A fence goes on until a line closes it, or until the end of the text. -/
theorem exists_fence_close {kind : FenceKind} {opener : Line} {before : List Line}
    (hrun : r.run = .fence kind (String.ofList opener) (String.ofList before.flatten))
    (hline : r.line = "") (lines : List Line) :
    ∃ content rest more, lines = content ++ rest ∧ (∀ line ∈ content, ¬ Closes line) ∧
      (∀ line ∈ rest.head?, Closes line) ∧
      (r.takeLines lines).close.blocks = r.blocks ++
        (Part.fence kind opener (before ++ content) rest.head?).blocks r.options ++ more := by
  rcases exists_first Closes lines with
    hnone | ⟨content, closer, behind, rfl, hcontent, hcloser⟩
  · refine ⟨lines, [], [], by simp, hnone, by simp, ?_⟩
    rw [takeLines_fence hrun hnone, blocks_close (r := r.moveTo _ _ _) hline]
    simp [Part.blocks, String.ofList_append]
  · refine ⟨content, closer :: behind, ?_⟩
    rw [takeLines_append, takeLines_fence hrun hcontent, takeLines_cons,
      takeLine_closer (run_moveTo _ _ _ _) hcloser, moveTo_moveTo]
    obtain ⟨more, hmore⟩ := exists_blocks_close (r := r.moveTo _ _ _) hline behind
    refine ⟨more, rfl, hcontent, fun line h => Option.some.inj h ▸ hcloser, ?_⟩
    rw [hmore]
    simp [Part.blocks, String.ofList_append]

/-! ### Streaming readers -/

/-- What holds while a text arrives: only the open line lacks its line feed. -/
structure Streaming (r : Reader) : Prop where
  phase : r.phase = .streaming
  line : '\n' ∉ r.line.toList
  run : r.run.Fits r.options
  settled : ∃ whole : List Line, (∀ line ∈ whole, Text.Whole line) ∧
    r.settled = String.ofList whole.flatten

/-- The run a reader begins with fits the options. -/
theorem Run.fits_empty (options : Options) : Run.Fits options (.prose "") :=
  Run.Fits.prose (List.forall_mem_nil Text.Whole) (List.forall_mem_nil _)

/-- A fresh reader is streaming. -/
theorem streaming_new (options : Options) : (new options).Streaming where
  phase := rfl
  line := by simp [new]
  run := Run.fits_empty options
  settled := ⟨[], by simp, rfl⟩

theorem Streaming.holding (h : r.Streaming) (d : Text.Utf8.Decoder) : (r.holding d).Streaming :=
  ⟨h.phase, h.line, h.run, h.settled⟩

/-- Taking a whole line keeps a reader streaming. -/
theorem Streaming.takeLine (h : r.Streaming) {line : Line} (hline : Text.Whole line) :
    (r.takeLine (String.ofList line)).Streaming := by
  obtain ⟨whole, hsettled, htext⟩ := h.settled
  have hone : ∀ l ∈ [line], Text.Whole l := by simpa using hline
  -- A marker moves the run into what is settled, any other line joins the run.
  have hfits := h.run
  generalize hrun : r.run = run at hfits
  cases hfits with
  | @prose run hwhole hprose =>
    by_cases hopen : ∃ kind, Opens r.options kind line
    · obtain ⟨kind, hopener⟩ := hopen
      rw [takeLine_opener hrun hopener]
      have hfits : Run.Fits r.options (.fence kind (String.ofList line) "") :=
        Run.Fits.fence hone hopener (List.forall_mem_nil _)
      exact ⟨h.phase, h.line, hfits, whole ++ run,
        List.forall_mem_append.2 ⟨hsettled, hwhole⟩, by simp [moveTo, htext, String.ofList_append]⟩
    · have hno : ∀ l ∈ [line], ∀ kind, ¬ Opens r.options kind l := by simpa using hopen
      have htake : r.takeLine (String.ofList line) = _ := takeLines_prose hrun hno
      rw [htake]
      refine ⟨h.phase, h.line, ?_, whole, hsettled, by simpa [moveTo] using htext⟩
      rw [run_moveTo, ← String.ofList_append, ← List.flatten_append]
      exact .prose (List.forall_mem_append.2 ⟨hwhole, hone⟩)
        (List.forall_mem_append.2 ⟨hprose, hno⟩)
  | @fence kind opener content hwhole hopener hcontent =>
    by_cases hclose : Closes line
    · rw [takeLine_closer hrun hclose]
      exact ⟨h.phase, h.line, Run.fits_empty _,
        whole ++ (opener :: content ++ [line]),
        List.forall_mem_append.2 ⟨hsettled, List.forall_mem_append.2 ⟨hwhole, hone⟩⟩,
        by simp [moveTo, htext, String.ofList_append, String.append_assoc]⟩
    · have hno : ∀ l ∈ [line], ¬ Closes l := by simpa using hclose
      have htake : r.takeLine (String.ofList line) = _ := takeLines_fence hrun hno
      rw [htake]
      refine ⟨h.phase, h.line, ?_, whole, hsettled, by simpa [moveTo] using htext⟩
      rw [run_moveTo, ← String.ofList_append, ← List.flatten_append]
      exact .fence (List.forall_mem_append.2 ⟨hwhole, hone⟩) hopener
        (List.forall_mem_append.2 ⟨hcontent, hno⟩)

/-- Reading a character keeps a reader streaming. -/
theorem Streaming.feed (h : r.Streaming) (c : Char) : (r.feed c).Streaming := by
  by_cases hc : c = '\n'
  · have hstart : r.atLineStart.Streaming := ⟨h.phase, by simp [atLineStart], h.run, h.settled⟩
    have hline : Text.Whole (r.line.push '\n').toList := ⟨_, h.line, by simp⟩
    have htake := hstart.takeLine hline
    rwa [String.ofList_toList, ← feed_newline, ← hc] at htake
  · have hfeed : r.feed c = { r with line := r.line.push c } := if_neg hc
    rw [hfeed]
    exact ⟨h.phase, by simpa using ⟨h.line, Ne.symm hc⟩, h.run, h.settled⟩

/-- Reading a text keeps a reader streaming. -/
theorem Streaming.feedAll (h : r.Streaming) (s : List Char) : (r.feedAll s).Streaming := by
  induction s generalizing r with
  | nil => exact h
  | cons c rest ih => exact ih (h.feed c)

/-- Calls that give text feed one text. -/
theorem exists_calls (h : r.Streaming) {calls : List Call}
    (hcalls : ∀ call ∈ calls, call.GivesText) :
    ∃ s d, r.after calls = (r.feedAll s).holding d := by
  induction calls generalizing r with
  | nil => exact ⟨[], r.decoder, rfl⟩
  | cons call rest ih =>
    obtain ⟨s, d, hcall⟩ := exists_call r (hcalls call (by simp))
    obtain ⟨s', d', hrest⟩ := ih (r := (r.feedAll s).holding d) ((h.feedAll s).holding d)
      fun call hc => hcalls call (by simp [hc])
    exact ⟨s ++ s', d', by
      rw [after_cons, hcall, hrest, feedAll_holding, ← feedAll_append, holding_holding]⟩

/-- Behind the calls and the end, the reader is where one text and its end lead. -/
theorem exists_finish (h : r.Streaming) {calls : List Call}
    (hcalls : ∀ call ∈ calls, call.GivesText) :
    ∃ s d, r.after (calls ++ [.finish]) = (r.feedAll s).close.holding d := by
  obtain ⟨s, d, hafter⟩ := exists_calls h hcalls
  obtain ⟨blocks, hfinish⟩ := finish_eq ((h.feedAll s).holding d).phase
  refine ⟨s ++ ((r.feedAll s).holding d).heldBack, ⟨[]⟩, ?_⟩
  rw [after_append, hafter, after_cons, after_nil, Call.on, hfinish, feedAll_append,
    feedAll_holding, holding_holding, close_holding]

/-- What was settled, the run and the open line are the beginning of the lines of the text. -/
theorem Streaming.lines_buffer (h : r.Streaming) {run : List Line}
    (hwhole : ∀ line ∈ run, Text.Whole line) (hrun : r.run.text = String.ofList run.flatten)
    (s : List Char) :
    Text.lines (r.feedAll s).buffer.toList =
      Text.lines r.settled.toList ++ run ++ Text.lines (r.line.toList ++ s) := by
  obtain ⟨whole, hsettled, htext⟩ := h.settled
  have hbuffer : (r.feedAll s).buffer.toList =
      whole.flatten ++ (run.flatten ++ (r.line.toList ++ s)) := by
    rw [buffer_feedAll, buffer, hrun, htext]
    simp
  have hlines : Text.lines whole.flatten = whole := by
    simpa [Text.lines] using Text.lines_flatten_append hsettled []
  rw [hbuffer, Text.lines_flatten_append hsettled, Text.lines_flatten_append hwhole, htext,
    String.toList_ofList, hlines, List.append_assoc]

/-! ### What is shown -/

/-- The lines behind those settled are a run of prose, which ends before a line that opens a fence
or with the text; its text begins with what is shown, and is the next block. -/
def KeepsText (r last : Reader) (shown : String) : Prop :=
  ∃ run rest text more,
    Text.lines last.buffer.toList = Text.lines r.settled.toList ++ run ++ rest ∧
    (∀ line ∈ run, ∀ kind, ¬ Opens r.options kind line) ∧
    (∀ line ∈ rest.head?, ∃ kind, Opens r.options kind line) ∧
    (Part.prose run).blocks r.options = [.text text] ∧ shown.toList <+: text.toList ∧
    last.blocks = r.blocks ++ .text text :: more

/-- The lines behind those settled are a fence of this kind, which ends before the first line that
closes it or with the text; its content begins with what is shown, up to blanks at the end, and it
is the next to be read. -/
def KeepsFence (r last : Reader) (kind : FenceKind) (shown : String) : Prop :=
  ∃ opener content rest more,
    Text.lines last.buffer.toList = Text.lines r.settled.toList ++ opener :: content ++ rest ∧
    Opens r.options kind opener ∧ (∀ line ∈ content, ¬ Closes line) ∧
    (∀ line ∈ rest.head?, Closes line) ∧ Text.trimEnd shown.toList <+: content.flatten ∧
    last.blocks = r.blocks ++ (Part.fence kind opener content rest.head?).blocks r.options ++ more

/-- Prose that is shown stays in front of the next block, whatever is read before the end. -/
theorem Streaming.keepsText (h : r.Streaming) {shown : String}
    (hshown : r.pending = some (.text shown)) (s : List Char) (d : Text.Utf8.Decoder) :
    r.KeepsText ((r.feedAll s).close.holding d) shown := by
  have hfits := h.run
  generalize hrun : r.run = run at hfits
  cases hfits with
  | fence => simp [pending, h.phase, hrun] at hshown
  | @prose run hwhole hprose =>
    have hmap : (prose? (run.flatten ++ r.visibleLine.toList)).map
        (fun chars => Pending.text (String.ofList chars)) = some (.text shown) := by
      simpa [pending, h.phase, hrun] using hshown
    obtain ⟨chars, hchars, heq⟩ := Option.map_eq_some_iff.1 hmap
    obtain rfl := Pending.text.inj heq
    obtain ⟨next, rest, more, hlines, hnext, hrest, hblocks⟩ :=
      exists_prose_close (r := r.atLineStart) hrun rfl (Text.lines (r.line.toList ++ s))
    -- The open line is shown as far as the lines before the next opener have it.
    obtain ⟨kept, blanks, hvisible, ⟨tail, htail⟩, hblanks⟩ := exists_kept h.line
      (fun line hopens => hopens.elim fun kind hk => hk.looksLikeMarker) hlines hrest
    rw [hvisible, ← List.append_assoc, prose?_append_blanks _ hblanks] at hchars
    obtain ⟨text, htext, hprefix⟩ := prose?_append hchars tail
    rw [List.append_assoc, htail, ← List.flatten_append] at htext
    have hyields : proseBlocks (String.ofList (run ++ next).flatten) =
        [.text (String.ofList text)] := by
      rw [proseBlocks, String.toList_ofList, htext]
    refine ⟨run ++ next, rest, String.ofList text, more, ?_,
      List.forall_mem_append.2 ⟨hprose, hnext⟩, hrest, hyields, by simpa using hprefix, ?_⟩
    · rw [buffer_holding, buffer_close, h.lines_buffer hwhole (by rw [hrun]; rfl), hlines]
      simp
    · show ((r.feedAll s).close).blocks = _
      rw [close_feedAll h.line, hblocks, ← String.ofList_append, ← List.flatten_append, hyields]
      simp [atLineStart]

/-- Fence content that is shown stays in front of the fence's content, whatever is read before the
end. -/
theorem Streaming.keepsFence (h : r.Streaming) {kind : FenceKind} {shown : String}
    {preview : Option Json} (hshown : r.pending = some (.fence kind shown preview))
    (s : List Char) (d : Text.Utf8.Decoder) :
    r.KeepsFence ((r.feedAll s).close.holding d) kind shown := by
  have hfits := h.run
  generalize hrun : r.run = run at hfits
  cases hfits with
  | prose => simp [pending, h.phase, hrun] at hshown
  | @fence kind' opener content hwhole hopener hcontent =>
    obtain ⟨rfl, rfl⟩ : kind' = kind ∧ shown = String.ofList content.flatten ++ r.visibleLine := by
      simp only [pending, h.phase, hrun, Option.some.injEq, Pending.fence.injEq] at hshown
      exact ⟨hshown.1, hshown.2.1.symm⟩
    obtain ⟨next, rest, more, hlines, hnext, hrest, hblocks⟩ :=
      exists_fence_close (r := r.atLineStart) hrun rfl (Text.lines (r.line.toList ++ s))
    obtain ⟨kept, blanks, hvisible, hkept, hblanks⟩ := exists_kept h.line
      (fun line hcloses => hcloses.looksLikeMarker) hlines hrest
    refine ⟨opener, content ++ next, rest, more, ?_, hopener,
      List.forall_mem_append.2 ⟨hcontent, hnext⟩, hrest, ?_, ?_⟩
    · rw [buffer_holding, buffer_close,
        h.lines_buffer hwhole (by rw [hrun, Run.text]; simp [String.ofList_append]), hlines]
      simp
    · have hshown : (String.ofList content.flatten ++ r.visibleLine).toList =
          content.flatten ++ kept ++ blanks := by simp [hvisible]
      rw [hshown, Text.trimEnd, Text.dropEndWhile_append_of_all _ hblanks, List.flatten_append]
      exact (Text.dropEndWhile_isPrefix _ _).trans ((List.prefix_append_right_inj _).2 hkept)
    · show ((r.feedAll s).close).blocks = _
      rw [close_feedAll h.line, hblocks]
      rfl

end Reader

/-- **What is shown is kept.**  While a text arrives, by whatever calls, nothing that the pending
view shows is taken back: however the text goes on, behind its end the next block is a text that
begins with the text shown, and the fence shown has a content that begins with the content shown,
up to blanks at its end. -/
theorem pending_kept (options : Options) {before after : List Call}
    (hbefore : ∀ call ∈ before, call.GivesText) (hafter : ∀ call ∈ after, call.GivesText) :
    let r := (Reader.new options).after before
    let last := r.after (after ++ [.finish])
    (∀ shown, r.pending = some (.text shown) → r.KeepsText last shown) ∧
      ∀ kind shown preview, r.pending = some (.fence kind shown preview) →
        r.KeepsFence last kind shown := by
  have hstreaming : ((Reader.new options).after before).Streaming := by
    obtain ⟨s, d, hr⟩ := Reader.exists_calls (Reader.streaming_new options) hbefore
    rw [hr]
    exact ((Reader.streaming_new options).feedAll s).holding d
  dsimp only
  generalize (Reader.new options).after before = r at hstreaming
  obtain ⟨s, d, hlast⟩ := Reader.exists_finish hstreaming hafter
  rw [hlast]
  exact ⟨fun shown hshown => hstreaming.keepsText hshown s d,
    fun kind shown preview hshown => hstreaming.keepsFence hshown s d⟩

/-- What was cut is the opener of a fence in the one reader, and content of a fence in the other. -/
theorem pending_kept_at_marker :
    let prose := (Reader.new {}).after [.push "Hi\n\x60\x60"]
    let fence := (Reader.new {}).after [.push "\x60\x60\x60jsx\n<A/>\n", .push "<B"]
    let rest : List Call := [.push "\x60jsx\n", .push "<C/>"]
    prose.pending = some (.text "Hi") ∧ prose.KeepsText (prose.after (rest ++ [.finish])) "Hi" ∧
      fence.pending = some (.fence .jsx "<A/>\n<B" none) ∧
      fence.KeepsFence (fence.after (rest ++ [.finish])) .jsx "<A/>\n<B" := by
  have hprose : ((Reader.new {}).after [.push "Hi\n\x60\x60"]).pending = some (.text "Hi") := rfl
  have hfence : ((Reader.new {}).after [.push "\x60\x60\x60jsx\n<A/>\n", .push "<B"]).pending =
      some (.fence .jsx "<A/>\n<B" none) := rfl
  exact ⟨hprose, (pending_kept {} (by simp [Call.GivesText]) (by simp [Call.GivesText])).1 _ hprose,
    hfence, (pending_kept {} (by simp [Call.GivesText]) (by simp [Call.GivesText])).2 _ _ _ hfence⟩

end AgentSurface.Stream
