import AgentSurface.Stream.Reader
import AgentSurface.Proofs.Text.Trim
import AgentSurface.Proofs.Text.Lines

/-!
# Stream — the grammar of a text

A text is read by its lines, without regard to how it arrives.  Its lines are tiled by runs of prose
and by fences, in turn: `Tiling` says where each begins and ends, `Part.Yields` what blocks it
stands for, and `Reads` puts the two together for a whole text.

* `opener?_eq_some_iff`, `isCloser_iff`: which lines open and close a fence, said through what
  stands around a tag.
* `prose?_eq_some_iff`, `prose?_eq_none_iff`: what is left of a run of prose.
* `exists_tiling`: all lines can be tiled.
-/

namespace AgentSurface.Stream

open Text (isBlank isBreak Strips)

/-- A line, with its line feed if it has one. -/
abbrev Line := List Char

/-! ### Marker lines -/

/-- The tag names this kind of fence; a tag that names both kinds counts as one of JSON. -/
def Options.Names (options : Options) (tag : List Char) : FenceKind → Prop
  | .json => ∃ t ∈ options.jsonTags, Text.sameTag t (String.ofList tag) = true
  | .jsx => (∃ t ∈ options.jsxTags, Text.sameTag t (String.ofList tag) = true) ∧
      ∀ t ∈ options.jsonTags, Text.sameTag t (String.ofList tag) = false

/-- The line is three backquotes and a tag of this kind, with blanks around each. -/
def Opens (options : Options) (kind : FenceKind) (line : Line) : Prop :=
  ∃ rest tag, Strips isBlank isBlank line (marker ++ rest) ∧ Strips isBlank isBlank rest tag ∧
    options.Names tag kind

/-- The line is three backquotes with blanks around them. -/
def Closes (line : Line) : Prop := Strips isBlank isBlank line marker

/-- The kind that is found for a tag is the one for which the options name it. -/
theorem kindOf?_eq_some_iff {options : Options} {tag : List Char} {kind : FenceKind} :
    options.kindOf? (String.ofList tag) = some kind ↔ options.Names tag kind := by
  unfold Options.kindOf?
  split
  · next h =>
    obtain ⟨t, ht, hsame⟩ := List.any_eq_true.1 h
    cases kind with
    | json => exact iff_of_true rfl ⟨t, ht, hsame⟩
    | jsx =>
      refine iff_of_false (by simp) fun hnames => ?_
      rw [hnames.2 t ht] at hsame
      exact Bool.false_ne_true hsame
  · next h =>
    have hnone : ∀ t ∈ options.jsonTags, Text.sameTag t (String.ofList tag) = false := by
      simpa using h
    cases kind with
    | json =>
      refine iff_of_false (by split <;> simp) ?_
      rintro ⟨t, ht, hsame⟩
      rw [hnone t ht] at hsame
      exact Bool.false_ne_true hsame
    | jsx =>
      rw [Options.Names, and_iff_left hnone, ← List.any_eq_true]
      split <;> simp_all

/-- The reader's test for an opening line decides the relation `Opens`. -/
theorem opener?_eq_some_iff {options : Options} {line : Line} {kind : FenceKind} :
    options.opener? line = some kind ↔ Opens options kind line := by
  simp only [Options.opener?]
  constructor
  · intro h
    split at h
    · next hprefix =>
      obtain ⟨rest, hrest⟩ := List.isPrefixOf_iff_prefix.1 hprefix
      rw [← hrest, List.drop_left, kindOf?_eq_some_iff] at h
      exact ⟨rest, Text.trim rest, Text.trim_eq_iff.1 hrest.symm, Text.trim_eq_iff.1 rfl, h⟩
    · simp at h
  · rintro ⟨rest, tag, hline, htag, hnames⟩
    rw [Text.trim_eq_iff.2 hline, if_pos (List.isPrefixOf_iff_prefix.2 (List.prefix_append _ _)),
      List.drop_left, Text.trim_eq_iff.2 htag, kindOf?_eq_some_iff]
    exact hnames

/-- The reader finds no opener exactly where the line opens no fence of any kind. -/
theorem opener?_eq_none_iff {options : Options} {line : Line} :
    options.opener? line = none ↔ ∀ kind, ¬ Opens options kind line := by
  rw [Option.eq_none_iff_forall_ne_some]
  exact forall_congr' fun kind => not_congr opener?_eq_some_iff

/-- The reader's test for a closing line decides the relation `Closes`. -/
theorem isCloser_iff {line : Line} : isCloser line = true ↔ Closes line := by
  rw [isCloser, beq_iff_eq, Text.trim_eq_iff, Closes]

/-- Blanks behind a line, such as its line feed, do not change what it opens. -/
theorem opener?_append_blank (options : Options) (line : Line) {behind : List Char}
    (h : ∀ c ∈ behind, isBlank c = true) :
    options.opener? (line ++ behind) = options.opener? line := by
  rw [Options.opener?, Text.trim_append_blank line h, Options.opener?]

/-- Blank characters at a line's end do not change whether it closes a fence. -/
theorem isCloser_append_blank (line : Line) {behind : List Char}
    (h : ∀ c ∈ behind, isBlank c = true) : isCloser (line ++ behind) = isCloser line := by
  rw [isCloser, Text.trim_append_blank line h, isCloser]

/-! ### Prose -/

theorem isBlank_of_isBreak {c : Char} (h : isBreak c = true) : isBlank c = true := by
  simp only [Text.isBreak, Bool.or_eq_true, beq_iff_eq] at h
  rcases h with rfl | rfl <;> rfl

/-- A text that ends in something that is not blank is not blank. -/
theorem exists_not_blank {text : List Char} (hne : text ≠ [])
    (hlast : ∀ c ∈ text.getLast?, isBlank c = false) : ∃ c ∈ text, isBlank c = false :=
  ⟨text.getLast hne, List.getLast_mem hne, hlast _ (List.getLast?_eq_some_getLast hne)⟩

theorem prose?_eq (run : List Char) :
    prose? run =
      if ((Text.dropEndWhile isBlank run).dropWhile isBreak).all isBlank then none
      else some ((Text.dropEndWhile isBlank run).dropWhile isBreak) := rfl

/-- Prose is kept as its text between line breaks in front and blanks behind, where any is left. -/
theorem prose?_eq_some_iff {run text : List Char} :
    prose? run = some text ↔ Strips isBreak isBlank run text ∧ text ≠ [] := by
  have hstrips := Text.strips_dropWhile_dropEndWhile isBreak isBlank run
  rw [prose?_eq]
  constructor
  · intro h
    split at h
    · simp at h
    · next hall =>
      obtain rfl := Option.some.inj h
      exact ⟨hstrips, fun hnil => hall (by rw [hnil]; rfl)⟩
  · rintro ⟨h, hne⟩
    obtain ⟨c, hc, hblank⟩ := exists_not_blank hne h.last
    rw [h.eq hne, if_neg]
    intro hall
    rw [List.all_eq_true.1 hall c hc] at hblank
    exact Bool.false_ne_true hblank.symm

/-- Prose gives no block exactly where all of it is blank. -/
theorem prose?_eq_none_iff {run : List Char} :
    prose? run = none ↔ ∀ c ∈ run, isBlank c = true := by
  have hstrips := Text.strips_dropWhile_dropEndWhile isBreak isBlank run
  constructor
  · intro h
    have hnil : (Text.dropEndWhile isBlank run).dropWhile isBreak = [] := by
      by_contra hne
      rw [prose?_eq_some_iff.2 ⟨hstrips, hne⟩] at h
      simp at h
    obtain ⟨before, behind, hrun, hbefore, hbehind⟩ := hstrips.parts
    rw [hnil, List.append_nil] at hrun
    intro c hc
    rw [hrun, List.mem_append] at hc
    exact hc.elim (fun h => isBlank_of_isBreak (hbefore c h)) (hbehind c)
  · intro h
    rw [Option.eq_none_iff_forall_ne_some]
    intro text htext
    obtain ⟨hstrips, hne⟩ := prose?_eq_some_iff.1 htext
    obtain ⟨c, hc, hblank⟩ := exists_not_blank hne hstrips.last
    obtain ⟨before, behind, rfl, -, -⟩ := hstrips.parts
    rw [h c (by simp [hc])] at hblank
    exact Bool.false_ne_true hblank.symm

/-! ### Tiles -/

/-- A tile of a text: a run of prose, or a fence whose closer may be missing. -/
inductive Part where
  | prose (run : List Line)
  | fence (kind : FenceKind) (opener : Line) (content : List Line) (closer : Option Line)

/-- The lines that a part of the document consists of, in order. -/
def Part.lines : Part → List Line
  | .prose run => run
  | .fence _ opener content closer => opener :: content ++ closer.toList

/-- Runs of prose and fences in turn.  A run ends at the first line that opens a fence, and a fence
at the first line behind its opener that closes one; only the last may be open. -/
inductive Tiling (options : Options) : List Part → Prop where
  | last {run : List Line} (hrun : ∀ line ∈ run, ∀ kind, ¬ Opens options kind line) :
    Tiling options [.prose run]
  | unclosed {run : List Line} {kind : FenceKind} {opener : Line} {content : List Line}
    (hrun : ∀ line ∈ run, ∀ kind, ¬ Opens options kind line) (hopener : Opens options kind opener)
    (hcontent : ∀ line ∈ content, ¬ Closes line) :
    Tiling options [.prose run, .fence kind opener content none]
  | closed {run : List Line} {kind : FenceKind} {opener : Line} {content : List Line}
    {closer : Line} {parts : List Part}
    (hrun : ∀ line ∈ run, ∀ kind, ¬ Opens options kind line) (hopener : Opens options kind opener)
    (hcontent : ∀ line ∈ content, ¬ Closes line) (hcloser : Closes closer)
    (hparts : Tiling options parts) :
    Tiling options (.prose run :: .fence kind opener content (some closer) :: parts)

/-- The blocks that a tile stands for, when an open fence counts as closed at the end. -/
inductive Part.Yields : Part → List Block → Prop where
  | prose {run : List Line} {text : List Char} (h : Strips isBreak isBlank run.flatten text)
    (hne : text ≠ []) : Part.Yields (.prose run) [.text (String.ofList text)]
  | blank {run : List Line} (h : ∀ c ∈ run.flatten, isBlank c = true) : Part.Yields (.prose run) []
  | closed (kind : FenceKind) (opener : Line) (content : List Line) (closer : Line) :
    Part.Yields (.fence kind opener content (some closer))
      (interpret kind (String.ofList content.flatten))
  | unclosed (kind : FenceKind) (opener : Line) {content : List Line}
    (h : ∃ c ∈ content.flatten, isBlank c = false) :
    Part.Yields (.fence kind opener content none) (interpret kind (String.ofList content.flatten))
  | unclosedBlank (kind : FenceKind) (opener : Line) {content : List Line}
    (h : ∀ c ∈ content.flatten, isBlank c = true) : Part.Yields (.fence kind opener content none) []

/-- The text, cut into lines and tiled, stands for the blocks of its tiles. -/
def Reads (options : Options) (text : String) (blocks : List Block) : Prop :=
  ∃ parts yields, Tiling options parts ∧ parts.flatMap Part.lines = Text.lines text.toList ∧
    List.Forall₂ Part.Yields parts yields ∧ yields.flatten = blocks

/-- Either no entry of a list has a property, or there is a first one that has it. -/
theorem exists_first {α : Type} (P : α → Prop) (xs : List α) :
    (∀ x ∈ xs, ¬ P x) ∨ ∃ before x behind, xs = before ++ x :: behind ∧
      (∀ y ∈ before, ¬ P y) ∧ P x := by
  induction xs with
  | nil => exact .inl (by simp)
  | cons x rest ih =>
    by_cases hx : P x
    · exact .inr ⟨[], x, rest, rfl, by simp, hx⟩
    · rcases ih with h | ⟨before, y, behind, rfl, hbefore, hy⟩
      · exact .inl (by simpa [hx] using h)
      · exact .inr ⟨x :: before, y, behind, rfl, by simpa [hx] using hbefore, hy⟩

/-- All lines can be tiled. -/
theorem exists_tiling (options : Options) (lines : List Line) :
    ∃ parts, Tiling options parts ∧ parts.flatMap Part.lines = lines := by
  rcases exists_first (fun line => ∃ kind, Opens options kind line) lines with
    hnone | ⟨run, opener, behind, rfl, hrun, kind, hopener⟩
  · exact ⟨[.prose lines], .last fun line h kind hk => hnone line h ⟨kind, hk⟩,
      by simp [Part.lines]⟩
  have hrun' : ∀ line ∈ run, ∀ kind, ¬ Opens options kind line :=
    fun line h kind hk => hrun line h ⟨kind, hk⟩
  rcases exists_first Closes behind with
    hnone | ⟨content, closer, rest, rfl, hcontent, hcloser⟩
  · exact ⟨_, .unclosed hrun' hopener hnone, by simp [Part.lines]⟩
  · -- What stands behind the fence is shorter.
    obtain ⟨parts, hparts, hlines⟩ := exists_tiling options rest
    exact ⟨_, .closed hrun' hopener hcontent hcloser hparts, by simp [Part.lines, hlines]⟩
termination_by lines.length
decreasing_by subst_vars; simp; omega

end AgentSurface.Stream
