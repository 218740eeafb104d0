import Mathlib.Data.List.Forall2
import AgentSurface.Proofs.Stream.Calls
import AgentSurface.Proofs.Stream.Grammar

/-!
# Stream — a reader follows the grammar

A reader takes a text character by character.  Behind the end of the text it is where the lines of
the text lead, taken whole one after the other (`close_feedAll`), and what a line does depends on
whether it opens or closes a fence (`takeLine_opener` and the lemmas beside it).  So the blocks of
a reader are those of the tiles of its text.

* `reads_iff`: the grammar of `Stream/Grammar` gives each text exactly the blocks that a reader
  gives for it.
-/

namespace AgentSurface.Stream

open Text (isBlank isBreak Strips)

namespace Reader

variable {r : Reader}

/-- Take lines one after the other. -/
def takeLines (r : Reader) (lines : List Line) : Reader :=
  lines.foldl (fun r line => r.takeLine (String.ofList line)) r

@[simp] theorem takeLines_nil (r : Reader) : r.takeLines [] = r := rfl

@[simp] theorem takeLines_cons (r : Reader) (line : Line) (rest : List Line) :
    r.takeLines (line :: rest) = (r.takeLine (String.ofList line)).takeLines rest := rfl

/-- Lines in two groups are taken one group behind the other. -/
theorem takeLines_append (r : Reader) (xs ys : List Line) :
    r.takeLines (xs ++ ys) = (r.takeLines xs).takeLines ys := by
  simp [takeLines]

@[simp] theorem options_takeLines (r : Reader) (lines : List Line) :
    (r.takeLines lines).options = r.options := by
  induction lines generalizing r with
  | nil => rfl
  | cons line rest ih => rw [takeLines_cons, ih, options_takeLine]

@[simp] theorem line_takeLines (r : Reader) (lines : List Line) :
    (r.takeLines lines).line = r.line := by
  induction lines generalizing r with
  | nil => rfl
  | cons line rest ih => rw [takeLines_cons, ih, line_takeLine]

/-! ### From characters to lines -/

/-- The reader with nothing in the open line. -/
def atLineStart (r : Reader) : Reader := { r with line := "" }

/-- Without an open line, the end of the text settles the run and nothing else. -/
theorem blocks_close (h : r.line = "") :
    r.close.blocks = r.blocks ++ Run.atEnd r.options r.run := by
  simp [close, h, settle]

/-- A line break ends the open line, and the line is taken. -/
theorem feed_newline (r : Reader) :
    r.feed '\n' = r.atLineStart.takeLine (r.line.push '\n') := by
  simp [feed, atLineStart]

/-- At the end of the text, an open line is a line. -/
theorem close_of_line (h : r.line ≠ "") :
    r.close = (r.atLineStart.takeLine r.line).close := by
  simp [close, h, atLineStart, settle]

/-- Behind the end of a text the reader is where the lines of the text lead. -/
theorem close_feedAll {s : List Char} (h : '\n' ∉ r.line.toList) :
    (r.feedAll s).close = (r.atLineStart.takeLines (Text.lines (r.line.toList ++ s))).close := by
  induction s generalizing r with
  | nil =>
    by_cases hnil : r.line = ""
    · have hr : r.atLineStart = r := by rw [atLineStart, ← hnil]
      simp [hnil, hr, Text.lines]
    · rw [List.append_nil, Text.lines_of_not_mem h (by simpa using hnil), feedAll_nil,
        close_of_line hnil]
      simp
  | cons c s ih =>
    show ((r.feed c).feedAll s).close = _
    -- A line feed makes the open line the first of the lines; another character stays in it.
    by_cases hc : c = '\n'
    · have hline : (r.feed '\n').line = "" := by rw [feed_newline, line_takeLine]; rfl
      have hstart : (r.feed '\n').atLineStart = r.feed '\n' := by rw [atLineStart, ← hline]
      rw [hc, ih (by simp [hline]), Text.lines_append_feed h, hline, hstart, feed_newline]
      simp [String.push_eq_append, String.ofList_append]
    · have hfeed : r.feed c = { r with line := r.line.push c } := if_neg hc
      rw [hfeed, ih (by simpa using ⟨h, Ne.symm hc⟩)]
      simp [atLineStart]

/-! ### What lines do to a run -/

/-- The reader with some text settled behind the text settled before, another run, and more
blocks. -/
def moveTo (r : Reader) (settled : String) (run : Run) (more : List Block) : Reader :=
  { r with settled := r.settled ++ settled, run, blocks := r.blocks ++ more }

@[simp] theorem options_moveTo (r : Reader) (settled : String) (run : Run) (more : List Block) :
    (r.moveTo settled run more).options = r.options := rfl

@[simp] theorem line_moveTo (r : Reader) (settled : String) (run : Run) (more : List Block) :
    (r.moveTo settled run more).line = r.line := rfl

@[simp] theorem run_moveTo (r : Reader) (settled : String) (run : Run) (more : List Block) :
    (r.moveTo settled run more).run = run := rfl

@[simp] theorem blocks_moveTo (r : Reader) (settled : String) (run : Run) (more : List Block) :
    (r.moveTo settled run more).blocks = r.blocks ++ more := rfl

/-- Two moves in a row are one, with the settled texts and the blocks joined. -/
@[simp] theorem moveTo_moveTo (r : Reader) (s₁ s₂ : String) (run₁ run₂ : Run)
    (more₁ more₂ : List Block) :
    (r.moveTo s₁ run₁ more₁).moveTo s₂ run₂ more₂ = r.moveTo (s₁ ++ s₂) run₂ (more₁ ++ more₂) := by
  simp [moveTo, String.append_assoc]

theorem moveTo_self (r : Reader) : r.moveTo "" r.run [] = r := by
  simp [moveTo]

/-- Lines that open no fence go on a run of prose. -/
theorem takeLines_prose {text : String} (hrun : r.run = .prose text) {lines : List Line}
    (h : ∀ line ∈ lines, ∀ kind, ¬ Opens r.options kind line) :
    r.takeLines lines = r.moveTo "" (.prose (text ++ String.ofList lines.flatten)) [] := by
  induction lines generalizing r text with
  | nil => simp [← hrun, moveTo_self]
  | cons line rest ih =>
    have hline : r.takeLine (String.ofList line) =
        r.moveTo "" (.prose (text ++ String.ofList line)) [] := by
      simp [takeLine, hrun, opener?_eq_none_iff.2 (h line (by simp)), moveTo]
    rw [takeLines_cons, hline, ih (run_moveTo _ _ _ _) fun l hl => h l (by simp [hl])]
    simp [String.append_assoc, String.ofList_append]

/-- A line that opens a fence settles the prose before it. -/
theorem takeLine_opener {text : String} (hrun : r.run = .prose text) {line : Line}
    {kind : FenceKind} (h : Opens r.options kind line) :
    r.takeLine (String.ofList line) =
      r.moveTo text (.fence kind (String.ofList line) "") (proseBlocks text) := by
  simp [takeLine, hrun, opener?_eq_some_iff.2 h, moveTo]

/-- Lines that close no fence go on the content of a fence. -/
theorem takeLines_fence {kind : FenceKind} {opener content : String}
    (hrun : r.run = .fence kind opener content) {lines : List Line}
    (h : ∀ line ∈ lines, ¬ Closes line) :
    r.takeLines lines =
      r.moveTo "" (.fence kind opener (content ++ String.ofList lines.flatten)) [] := by
  induction lines generalizing r content with
  | nil => simp [← hrun, moveTo_self]
  | cons line rest ih =>
    have hno : isCloser line = false := by
      rw [← Bool.not_eq_true, isCloser_iff]; exact h line (by simp)
    have hline : r.takeLine (String.ofList line) =
        r.moveTo "" (.fence kind opener (content ++ String.ofList line)) [] := by
      simp [takeLine, hrun, hno, moveTo]
    rw [takeLines_cons, hline, ih (run_moveTo _ _ _ _) fun l hl => h l (by simp [hl])]
    simp [String.append_assoc, String.ofList_append]

/-- A line that closes a fence settles it. -/
theorem takeLine_closer {kind : FenceKind} {opener content : String}
    (hrun : r.run = .fence kind opener content) {line : Line} (h : Closes line) :
    r.takeLine (String.ofList line) =
      r.moveTo (opener ++ content ++ String.ofList line) (.prose "") (interpret kind content) := by
  simp [takeLine, hrun, isCloser_iff.2 h, moveTo, String.append_assoc]

/-- A run of prose, and a fence that stays open behind it. -/
theorem takeLines_open {text : String} (hrun : r.run = .prose text) {run content : List Line}
    {kind : FenceKind} {opener : Line}
    (hprose : ∀ line ∈ run, ∀ kind, ¬ Opens r.options kind line)
    (hopener : Opens r.options kind opener) (hcontent : ∀ line ∈ content, ¬ Closes line) :
    r.takeLines (run ++ opener :: content) =
      r.moveTo (text ++ String.ofList run.flatten)
        (.fence kind (String.ofList opener) (String.ofList content.flatten))
        (proseBlocks (text ++ String.ofList run.flatten)) := by
  rw [takeLines_append, takeLines_prose hrun hprose, takeLines_cons,
    takeLine_opener (run_moveTo _ _ _ _) hopener, takeLines_fence (run_moveTo _ _ _ _) hcontent]
  simp

/-- A run of prose, and a fence with its closer. -/
theorem takeLines_closed {text : String} (hrun : r.run = .prose text) {run content : List Line}
    {kind : FenceKind} {opener closer : Line}
    (hprose : ∀ line ∈ run, ∀ kind, ¬ Opens r.options kind line)
    (hopener : Opens r.options kind opener) (hcontent : ∀ line ∈ content, ¬ Closes line)
    (hcloser : Closes closer) :
    ∃ settled, r.takeLines (run ++ opener :: (content ++ [closer])) =
      r.moveTo settled (.prose "") (proseBlocks (text ++ String.ofList run.flatten) ++
        interpret kind (String.ofList content.flatten)) := by
  have hlines : run ++ opener :: (content ++ [closer]) =
      (run ++ opener :: content) ++ [closer] := by simp
  rw [hlines, takeLines_append, takeLines_open hrun hprose hopener hcontent, takeLines_cons,
    takeLine_closer (run_moveTo _ _ _ _) hcloser, moveTo_moveTo]
  exact ⟨_, rfl⟩

end Reader

/-! ### Tiles -/

/-- The blocks that a tile stands for, computed as a reader computes them. -/
def Part.blocks (options : Options) : Part → List Block
  | .prose run => proseBlocks (String.ofList run.flatten)
  | .fence kind _ content (some _) => interpret kind (String.ofList content.flatten)
  | .fence kind opener content none =>
    Reader.Run.atEnd options
      (.fence kind (String.ofList opener) (String.ofList content.flatten))

/-- With fences closed at the end, a part may yield exactly its own blocks. -/
theorem Part.yields_iff {options : Options} (hclose : options.closeAtEnd = true) {part : Part}
    {blocks : List Block} : part.Yields blocks ↔ blocks = part.blocks options := by
  constructor
  · intro h
    cases h with
    | prose h hne => simp [Part.blocks, proseBlocks, prose?_eq_some_iff.2 ⟨h, hne⟩]
    | blank h => simp [Part.blocks, proseBlocks, prose?_eq_none_iff.2 h]
    | closed => rfl
    | unclosed kind opener h =>
      obtain ⟨c, hc, hblank⟩ := h
      rw [Part.blocks, Reader.Run.atEnd, if_neg, if_pos hclose]
      intro hall
      rw [String.toList_ofList, List.all_eq_true] at hall
      rw [hall c hc] at hblank
      exact Bool.false_ne_true hblank.symm
    | unclosedBlank kind opener h =>
      rw [Part.blocks, Reader.Run.atEnd, if_pos]
      rw [String.toList_ofList, List.all_eq_true]
      exact h
  · rintro rfl
    match part with
    | .prose run =>
      rw [Part.blocks, proseBlocks, String.toList_ofList]
      cases hprose : prose? run.flatten with
      | none => exact .blank (prose?_eq_none_iff.1 hprose)
      | some text =>
        obtain ⟨h, hne⟩ := prose?_eq_some_iff.1 hprose
        exact .prose h hne
    | .fence kind opener content (some closer) => exact .closed kind opener content closer
    | .fence kind opener content none =>
      rw [Part.blocks, Reader.Run.atEnd, String.toList_ofList]
      split
      · next hall => exact .unclosedBlank kind opener (List.all_eq_true.1 hall)
      · next hall =>
        refine .unclosed kind opener ?_
        simpa only [List.all_eq_true, not_forall, Bool.not_eq_true, exists_prop] using hall

open Reader

/-- The lines of a run of prose and of a fence with its closer stand before all others. -/
theorem flatMap_lines_closed (run : List Line) (kind : FenceKind) (opener : Line)
    (content : List Line) (closer : Line) (parts : List Part) :
    (Part.prose run :: .fence kind opener content (some closer) :: parts).flatMap Part.lines =
      (run ++ opener :: (content ++ [closer])) ++ parts.flatMap Part.lines := by
  simp [Part.lines]

/-- The blocks of the tiles are those that their lines give, with the run at the end. -/
theorem Tiling.blocks_takeLines {options : Options} {parts : List Part} (h : Tiling options parts)
    {r : Reader} (hoptions : r.options = options) (hrun : r.run = .prose "") :
    (r.takeLines (parts.flatMap Part.lines)).blocks ++
      Run.atEnd options (r.takeLines (parts.flatMap Part.lines)).run =
      r.blocks ++ parts.flatMap (Part.blocks options) := by
  induction h generalizing r with
  | last hprose =>
    simp only [List.flatMap_cons, List.flatMap_nil, List.append_nil, Part.lines]
    rw [takeLines_prose hrun (hoptions ▸ hprose)]
    simp [Run.atEnd, Part.blocks]
  | unclosed hprose hopener hcontent =>
    simp only [List.flatMap_cons, List.flatMap_nil, List.append_nil, Part.lines,
      Option.toList_none]
    rw [takeLines_open hrun (hoptions ▸ hprose) (hoptions ▸ hopener) hcontent]
    simp [Part.blocks]
  | @closed run kind opener content closer parts hprose hopener hcontent hcloser hparts ih =>
    obtain ⟨settled, hclosed⟩ := takeLines_closed hrun (hoptions ▸ hprose) (hoptions ▸ hopener)
      hcontent hcloser
    rw [flatMap_lines_closed, takeLines_append, hclosed, ih (r := r.moveTo _ _ _) hoptions rfl]
    simp [Part.blocks]

/-- With fences closed at the end, parts yield exactly their own blocks. -/
theorem forall₂_yields_iff {options : Options} (hclose : options.closeAtEnd = true)
    {parts : List Part} {yields : List (List Block)} :
    List.Forall₂ Part.Yields parts yields ↔ yields = parts.map (Part.blocks options) := by
  induction parts generalizing yields with
  | nil => simp
  | cons part rest ih => simp [List.forall₂_cons_left_iff, Part.yields_iff hclose, ih]

/-- Behind the end of a text, the blocks are those of its tiles. -/
theorem Tiling.blocks_close {options : Options} {parts : List Part} (h : Tiling options parts)
    {text : String} (hlines : parts.flatMap Part.lines = Text.lines text.toList) :
    ((new options).feedAll text.toList).close.blocks = parts.flatMap (Part.blocks options) := by
  have hstart : ((new options).feedAll text.toList).close =
      ((new options).takeLines (Text.lines text.toList)).close := close_feedAll (by simp [new])
  rw [hstart, Reader.blocks_close (line_takeLines _ _), options_takeLines, ← hlines]
  exact h.blocks_takeLines (r := new options) rfl rfl

/-- **A reader follows the grammar.**  When an open fence counts as closed at the end, a text for
which there is room is read without a refusal, and the grammar gives it one list of blocks and no
other: the blocks that the reader gives. -/
theorem reads_iff {options : Options} (hclose : options.closeAtEnd = true) {text : String}
    (hroom : text.utf8ByteSize ≤ options.maxBytes) :
    ∃ last : Reader, (new options).Leads [.push text, .finish] last ∧
      ∀ blocks, Reads options text blocks ↔ blocks = last.blocks := by
  obtain ⟨blocks, hpush⟩ := push_eq (r := new options) rfl text (by simpa using hroom)
  have hfinish := leads_finish (r := (new options).feedAll text.toList) (by simp) (by simp [new])
  refine ⟨_, .cons hpush hfinish, fun blocks => ⟨?_, ?_⟩⟩
  · rintro ⟨parts, yields, hparts, hlines, hyields, rfl⟩
    rw [hparts.blocks_close hlines, (forall₂_yields_iff hclose).1 hyields, List.flatMap_def]
  · rintro rfl
    obtain ⟨parts, hparts, hlines⟩ := exists_tiling options (Text.lines text.toList)
    exact ⟨parts, parts.map (Part.blocks options), hparts, hlines,
      (forall₂_yields_iff hclose).2 rfl, by rw [hparts.blocks_close hlines, List.flatMap_def]⟩

/-- The fence is empty, and nothing stands behind its opener. -/
theorem reads_open_fence :
    ∃ last : Reader, (new {}).Leads [.push "Hi\n\x60\x60\x60json", .finish] last ∧
      ∀ blocks, Reads {} "Hi\n\x60\x60\x60json" blocks ↔ blocks = last.blocks :=
  reads_iff (show Options.closeAtEnd {} = true from rfl) (by decide)

end AgentSurface.Stream
