import AgentSurface.Proofs.Jsx.Prose
import AgentSurface.Proofs.Text.Lines
import AgentSurface.Proofs.Text.Trim

/-!
# Jsx — a text node has the words of its source

Characters between two elements become a text node in one of two ways, by joining their words or by
squeezing their blanks.  Either way the node has the words of the characters, in order, and is its
own text node.

* `Spaced`, `words_eq_iff`: the words of a text, without regard to how they are found.
* `words_squeeze`, `words_unwords`: neither way changes the words.
* `joinLines_eq`: joining the words line by line, without blank lines, is joining all words.
* `normalize_keeps_words`: the words, the blanks and the text node of a text node.
-/

namespace AgentSurface

namespace Text

variable {s w : List Char} {ws : List (List Char)}

/-! ### The words of a text -/

/-- The text has these words: blanks stand before and behind them, and at least one between two. -/
inductive Spaced : List (List Char) → List Char → Prop where
  | blank {b : List Char} (hb : ∀ c ∈ b, isBlank c = true) : Spaced [] b
  | last {b w : List Char} (hb : ∀ c ∈ b, isBlank c = true) (hw : IsWord w) : Spaced [w] (b ++ w)
  | word {b w rest : List Char} {c : Char} {ws : List (List Char)}
    (hb : ∀ c ∈ b, isBlank c = true) (hw : IsWord w) (hc : isBlank c = true)
    (hrest : Spaced ws rest) : Spaced (w :: ws) (b ++ w ++ c :: rest)

/-- A blank before the words changes none of them. -/
theorem Spaced.cons_blank {c : Char} (hc : isBlank c = true) (h : Spaced ws s) :
    Spaced ws (c :: s) := by
  cases h with
  | blank hb => exact .blank (List.forall_mem_cons.2 ⟨hc, hb⟩)
  | last hb hw => exact .last (b := c :: _) (List.forall_mem_cons.2 ⟨hc, hb⟩) hw
  | word hb hw hc' hrest => exact .word (b := c :: _) (List.forall_mem_cons.2 ⟨hc, hb⟩) hw hc' hrest

/-- The words of a text stand in it in their order, with blanks between them and nothing else. -/
theorem spaced_wordsFrom {word : List Char} (hword : ∀ c ∈ word, isBlank c = false)
    (s : List Char) : Spaced (wordsFrom word s) (word.reverse ++ s) := by
  have hdone : ∀ {word : List Char}, ¬ word.isEmpty = true → (∀ c ∈ word, isBlank c = false) →
      IsWord word.reverse := fun hne hword => ⟨by simpa using hne, by simpa using hword⟩
  induction s generalizing word with
  | nil =>
    rw [wordsFrom, List.append_nil]
    split
    · next hempty =>
      rw [List.isEmpty_iff.1 hempty]
      exact .blank (List.forall_mem_nil _)
    · next hne => exact .last (b := []) (List.forall_mem_nil _) (hdone hne hword)
  | cons c rest ih =>
    have hrest : Spaced (wordsFrom [] rest) rest := ih (List.forall_mem_nil _)
    rw [wordsFrom]
    split
    · next hc =>
      split
      · next hempty =>
        rw [List.isEmpty_iff.1 hempty]
        exact hrest.cons_blank hc
      · next hne => exact .word (b := []) (List.forall_mem_nil _) (hdone hne hword) hc hrest
    · next hc =>
      have hmore := ih (List.forall_mem_cons.2 ⟨by simpa using hc, hword⟩)
      rwa [List.reverse_cons, List.append_assoc, List.singleton_append] at hmore

/-- Where a word ends at a blank, the words behind it are those of the rest. -/
theorem wordsFrom_append_blank (word s : List Char) {c : Char} (hc : isBlank c = true)
    (rest : List Char) : wordsFrom word (s ++ c :: rest) = wordsFrom word s ++ words rest := by
  induction s generalizing word with
  | nil =>
    rw [List.nil_append, wordsFrom.eq_1, wordsFrom.eq_2, if_pos hc]
    split <;> rfl
  | cons d s ih =>
    rw [List.cons_append, wordsFrom, wordsFrom, ih, ih]
    split
    · split <;> rfl
    · rfl

/-- A blank parts the words before it from those behind it. -/
theorem words_append_blank (s : List Char) {c : Char} (hc : isBlank c = true) (rest : List Char) :
    words (s ++ c :: rest) = words s ++ words rest := wordsFrom_append_blank [] s hc rest

/-- Without blanks there is one word. -/
theorem wordsFrom_of_forall {word : List Char} (hw : ∀ c ∈ w, isBlank c = false)
    (hne : w ≠ [] ∨ word ≠ []) : wordsFrom word w = [word.reverse ++ w] := by
  induction w generalizing word with
  | nil =>
    rw [wordsFrom, if_neg (by simpa using hne.resolve_left fun h => h rfl), List.append_nil]
  | cons c w ih =>
    have hc : ¬ isBlank c = true := by rw [hw c List.mem_cons_self]; exact Bool.false_ne_true
    rw [wordsFrom, if_neg hc, ih (fun d hd => hw d (List.mem_cons_of_mem c hd)) (.inr (by simp))]
    simp

theorem words_of_isWord (h : IsWord w) : words w = [w] := wordsFrom_of_forall h.2 (.inl h.1)

/-- Blanks at the beginning are no part of a word. -/
theorem words_blank_append {b : List Char} (hb : ∀ c ∈ b, isBlank c = true) (s : List Char) :
    words (b ++ s) = words s := by
  induction b with
  | nil => rfl
  | cons c b ih =>
    have hcons := words_append_blank [] (hb c List.mem_cons_self) (b ++ s)
    rw [List.cons_append]
    exact hcons.trans (ih fun d hd => hb d (List.mem_cons_of_mem c hd))

/-- **The words of a text** are what stands between its blanks. -/
theorem words_eq_iff : words s = ws ↔ Spaced ws s := by
  refine ⟨fun h => h ▸ spaced_wordsFrom (List.forall_mem_nil _) s, fun h => ?_⟩
  induction h with
  | blank hb => exact words_of_blank hb
  | last hb hw => rw [words_blank_append hb, words_of_isWord hw]
  | word hb hw hc hrest ih =>
    rw [List.append_assoc, words_blank_append hb, words_append_blank _ hc, words_of_isWord hw, ih]
    rfl

/-- Only blanks have no words. -/
theorem words_eq_nil_iff : words s = [] ↔ ∀ c ∈ s, isBlank c = true := by
  refine ⟨fun h => ?_, words_of_blank⟩
  cases words_eq_iff.1 h with
  | blank hb => exact hb

/-! ### Neither joining nor squeezing changes the words -/

/-- Joined words are these words. -/
theorem words_unwords (h : ∀ w ∈ ws, IsWord w) : words (unwords ws) = ws := by
  induction ws using unwords.induct with
  | case1 => rfl
  | case2 w => exact words_of_isWord (h w List.mem_cons_self)
  | case3 w ws hws ih =>
    rw [unwords.eq_3 w ws hws, words_append_blank w rfl, words_of_isWord (h w List.mem_cons_self),
      ih fun w' hw' => h w' (List.mem_cons_of_mem w hw')]
    rfl

theorem words_unwords_words (s : List Char) : words (unwords (words s)) = words s :=
  words_unwords fun _ hw => (mem_words hw).1

/-- A run of blanks ends a word as one space does; inside a run no word is being read. -/
theorem wordsFrom_squeezeFrom {inRun : Bool} {word : List Char} (hrun : inRun = true → word = [])
    (s : List Char) : wordsFrom word (squeezeFrom inRun s) = wordsFrom word s := by
  induction s generalizing inRun word with
  | nil => rfl
  | cons c rest ih =>
    by_cases hc : isBlank c = true
    · have hrest : wordsFrom [] (squeezeFrom true rest) = wordsFrom [] rest := ih fun _ => rfl
      cases inRun with
      | true =>
        obtain rfl := hrun rfl
        simp [squeezeFrom, wordsFrom, hc, hrest]
      | false => simp [squeezeFrom, wordsFrom, hc, hrest, show isBlank ' ' = true from rfl]
    · simp [squeezeFrom, wordsFrom, hc, ih]

/-- Runs of blanks may be squeezed without changing a word. -/
theorem words_squeeze (s : List Char) : words (squeeze s) = words s :=
  wordsFrom_squeezeFrom (fun _ => rfl) s

/-! ### Line by line -/

/-- The line without its line feed, and without a carriage return before that. -/
def withoutBreak (line : List Char) : List Char :=
  if line.getLast? = some '\n' then
    if line.dropLast.getLast? = some '\r' then line.dropLast.dropLast else line.dropLast
  else line

/-- The lines of a text, each with its words one space apart; what is left of them is joined. -/
def joinLines (s : List Char) : List Char :=
  unwords (((lines s).map fun line => unwords (words (withoutBreak line))).filter
    fun line => !line.isEmpty)

/-- A blank at the end is no part of a word. -/
theorem words_dropLast {c : Char} (hc : isBlank c = true) (h : s.getLast? = some c) :
    words s.dropLast = words s := by
  obtain ⟨t, rfl⟩ := List.getLast?_eq_some_iff.1 h
  rw [List.dropLast_concat, words_append_blank t hc]
  exact (List.append_nil _).symm

/-- A line break is blank. -/
theorem words_withoutBreak (line : List Char) : words (withoutBreak line) = words line := by
  unfold withoutBreak
  split
  · next hfeed =>
    split
    · next hreturn => rw [words_dropLast rfl hreturn, words_dropLast rfl hfeed]
    · rw [words_dropLast rfl hfeed]
  · rfl

/-- No word goes on behind the end of a line. -/
theorem flatMap_words_lines (s : List Char) : (lines s).flatMap words = words s := by
  obtain ⟨whole, rest, rfl, hwhole, hrest⟩ := exists_whole_append s
  rw [lines_flatten_append hwhole, List.flatMap_append]
  induction whole with
  | nil =>
    by_cases hnil : rest = []
    · rw [hnil]; rfl
    · simp [lines_of_not_mem hrest hnil]
  | cons line whole ih =>
    obtain ⟨⟨t, -, rfl⟩, hmore⟩ := List.forall_mem_cons.1 hwhole
    have hline : words (t ++ ['\n']) = words t :=
      (words_append_blank t rfl []).trans (List.append_nil _)
    rw [List.flatMap_cons, hline, List.append_assoc, ih hmore, List.flatten_cons, List.append_assoc,
      List.append_assoc, List.singleton_append, words_append_blank t rfl]

theorem unwords_eq_nil_iff (h : ∀ w ∈ ws, w ≠ []) : unwords ws = [] ↔ ws = [] := by
  match ws with
  | [] => exact iff_of_true rfl rfl
  | [w] => exact iff_of_false (h w List.mem_cons_self) (List.cons_ne_nil _ _)
  | w :: w' :: ws => simp [unwords]

/-- A single space stands behind a word that is not the last one. -/
theorem unwords_cons (w : List Char) (h : ws ≠ []) :
    unwords (w :: ws) = w ++ ' ' :: unwords ws := by
  cases ws with
  | nil => exact absurd rfl h
  | cons w' ws => rfl

/-- A single space stands between words and the words that follow. -/
theorem unwords_append {us : List (List Char)} (hus : us ≠ []) (hws : ws ≠ []) :
    unwords (us ++ ws) = unwords us ++ ' ' :: unwords ws := by
  induction us with
  | nil => exact absurd rfl hus
  | cons u us ih =>
    by_cases hnil : us = []
    · rw [hnil, List.singleton_append, unwords_cons u hws, unwords]
    · rw [List.cons_append, unwords_cons u (by simp [hnil]), ih hnil, unwords_cons u hnil,
        List.append_assoc, List.cons_append]

/-- Groups of words, each joined, and then those joined that are not empty. -/
theorem unwords_groups {groups : List (List (List Char))} (h : ∀ g ∈ groups, ∀ w ∈ g, w ≠ []) :
    unwords ((groups.map unwords).filter fun line => !line.isEmpty) = unwords groups.flatten ∧
      (((groups.map unwords).filter fun line => !line.isEmpty) = [] ↔ groups.flatten = []) := by
  induction groups with
  | nil => exact ⟨rfl, Iff.rfl⟩
  | cons g groups ih =>
    obtain ⟨hg, hgroups⟩ := List.forall_mem_cons.1 h
    obtain ⟨hjoin, hnone⟩ := ih hgroups
    by_cases hnil : g = []
    · subst hnil
      exact ⟨hjoin, hnone⟩
    · have hline : (!(unwords g).isEmpty) = true := by
        simpa using fun h => hnil ((unwords_eq_nil_iff hg).1 h)
      rw [List.map_cons, List.filter_cons, if_pos hline, List.flatten_cons]
      refine ⟨?_, by simp [hnil]⟩
      by_cases hlast : groups.flatten = []
      · rw [hnone.2 hlast, hlast, unwords, List.append_nil]
      · rw [unwords_cons _ fun h => hlast (hnone.1 h), hjoin, unwords_append hnil hlast]

/-- **Joining line by line is joining all words.** -/
theorem joinLines_eq (s : List Char) : joinLines s = unwords (words s) := by
  have hlines : ((lines s).map fun line => unwords (words (withoutBreak line))) =
      ((lines s).map words).map unwords := by
    simp [words_withoutBreak]
  have hwords : ∀ g ∈ (lines s).map words, ∀ w ∈ g, w ≠ [] := by
    intro g hg w hw
    obtain ⟨line, -, rfl⟩ := List.mem_map.1 hg
    exact (mem_words hw).1.1
  rw [joinLines, hlines, (unwords_groups hwords).1, ← List.flatMap_def, flatMap_words_lines]

end Text

namespace Jsx

open Text (isBlank words unwords joinLines)

variable {raw text : List Char} {atTop : Bool}

/-! ### Text nodes -/

/-- The text node that is made line by line, where there are lines. -/
def normalizeByLines (raw : List Char) (atTop : Bool) : Option String :=
  if raw.contains '\n' then
    let joined := joinLines raw
    if joined.isEmpty then none else some (String.ofList joined)
  else if atTop && (Text.trim raw).isEmpty then none
  else
    let squeezed := Text.squeeze raw
    if squeezed.isEmpty then none else some (String.ofList squeezed)

/-- A text is trimmed to nothing if it has no words. -/
theorem isEmpty_trim (raw : List Char) : (Text.trim raw).isEmpty = raw.all isBlank := by
  rw [Bool.eq_iff_iff, List.isEmpty_iff, List.all_eq_true]
  constructor
  · intro hnil
    obtain ⟨⟨before, behind, hraw, hbefore, hbehind⟩, -, -⟩ := Text.trim_eq_iff.1 hnil
    rw [hraw, List.append_nil]
    exact List.forall_mem_append.2 ⟨hbefore, hbehind⟩
  · intro hblank
    have htrim := Text.trim_blank_append hblank []
    rwa [List.append_nil] at htrim

/-- **Going by lines comes to the same as taking the text as a whole.** -/
theorem normalizeByLines_eq (raw : List Char) (atTop : Bool) :
    normalizeByLines raw atTop = normalize raw atTop := by
  unfold normalizeByLines normalize
  dsimp only
  rw [Text.joinLines_eq, isEmpty_trim]
  split
  · rfl
  · split <;> rfl

/-- What the characters of a text node have of those they stand for. -/
structure Collapses (raw text : List Char) : Prop where
  words : words text = words raw
  chars : ∀ c ∈ text, c = ' ' ∨ c ∈ raw ∧ isBlank c = false
  fixed : Text.squeeze text = text

/-- Words joined by single spaces are one way to collapse a text. -/
theorem collapses_unwords (raw : List Char) : Collapses raw (unwords (words raw)) where
  words := Text.words_unwords_words raw
  chars c hc := (Text.mem_unwords hc).imp_right fun ⟨_, hw, hcw⟩ =>
    ⟨(Text.mem_words hw).2 c hcw, (Text.mem_words hw).1.2 c hcw⟩
  fixed := Text.squeezeFrom_unwords (fun _ hw => (Text.mem_words hw).1) false

/-- Squeezed blanks are the other one; a space may stay at each end. -/
theorem collapses_squeeze (raw : List Char) : Collapses raw (Text.squeeze raw) where
  words := Text.words_squeeze raw
  chars _ hc := Text.mem_squeezeFrom hc
  fixed := by
    refine Text.squeezeFrom_of_single (fun c hc hblank => ?_) (Text.single_squeezeFrom raw false).2
      nofun
    exact (Text.mem_squeezeFrom hc).resolve_right fun h => by simp [h.2] at hblank

/-- The only blanks of a collapsed text are spaces. -/
theorem Collapses.blank (h : Collapses raw text) {c : Char} (hc : c ∈ text)
    (hblank : isBlank c = true) : c = ' ' :=
  (h.chars c hc).resolve_right fun hother => by simp [hother.2] at hblank

/-- No two of them stand beside each other. -/
theorem Collapses.single (h : Collapses raw text) : ¬ [' ', ' '] <:+: text := by
  rw [← h.fixed]
  exact (Text.single_squeezeFrom text false).2

/-- A text that is squeezed is its own text node. -/
theorem Collapses.normalize_eq (h : Collapses raw text) (hne : text ≠ [])
    (htop : atTop = true → Text.words raw ≠ []) :
    normalize text atTop = some (String.ofList text) := by
  have hfeed : '\n' ∉ text := fun hmem => absurd (h.blank hmem rfl) (by decide)
  have hword : (atTop && text.all isBlank) = false := by
    cases atTop with
    | false => rfl
    | true =>
      rw [Bool.true_and, ← Bool.not_eq_true]
      intro hall
      exact htop rfl (h.words.symm.trans (Text.words_of_blank (List.all_eq_true.1 hall)))
  simp [normalize, hfeed, hword, h.fixed, hne]

theorem squeeze_ne_nil (h : raw ≠ []) : Text.squeeze raw ≠ [] := by
  obtain ⟨c, rest, rfl⟩ := List.exists_cons_of_ne_nil h
  by_cases hc : isBlank c = true <;> simp [Text.squeeze, Text.squeezeFrom, hc]

/-- Characters without words have no text node, or one that is made of them as it should be. -/
theorem exists_collapses (raw : List Char) (atTop : Bool) :
    (normalize raw atTop = none ∧ words raw = []) ∨
      ∃ text, normalize raw atTop = some (String.ofList text) ∧ text ≠ [] ∧ Collapses raw text ∧
        (atTop = true → words raw ≠ []) ∧ ('\n' ∈ raw → text = unwords (words raw)) := by
  by_cases hfeed : '\n' ∈ raw
  · by_cases hwords : words raw = []
    · exact .inl ⟨by simp [normalize, hfeed, hwords, unwords], hwords⟩
    · have hne : unwords (words raw) ≠ [] := fun hnil =>
        hwords ((Text.unwords_eq_nil_iff fun _ hw => (Text.mem_words hw).1.1).1 hnil)
      exact .inr ⟨_, by simp [normalize, hfeed, hne], hne, collapses_unwords raw, fun _ => hwords,
        fun _ => rfl⟩
  · by_cases htop : atTop = true ∧ words raw = []
    · obtain ⟨rfl, hwords⟩ := htop
      have hall : raw.all isBlank = true := List.all_eq_true.2 (Text.words_eq_nil_iff.1 hwords)
      exact .inl ⟨by simp [normalize, hfeed, hall], hwords⟩
    by_cases hnil : raw = []
    · subst hnil
      exact .inl ⟨by simp [normalize, Text.squeeze, Text.squeezeFrom], rfl⟩
    · have hall : (atTop && raw.all isBlank) = false := by
        rw [← Bool.not_eq_true, Bool.and_eq_true]
        exact fun h => htop ⟨h.1, Text.words_of_blank (List.all_eq_true.1 h.2)⟩
      have hne := squeeze_ne_nil hnil
      exact .inr ⟨_, by simp [normalize, hfeed, hall, hne], hne, collapses_squeeze raw,
        fun h hwords => htop ⟨h, hwords⟩, fun h => absurd h hfeed⟩

/-- **A text node has the words of its source.**  Characters between two elements become the same
text node line by line.  It has their words, no other blanks than single spaces between and around
them, and nothing but the words with one space between two where there was a line break; it is its
own text node.  Only characters without words have none. -/
theorem normalize_keeps_words (raw : List Char) (atTop : Bool) :
    normalize raw atTop = normalizeByLines raw atTop ∧ Text.Spaced (words raw) raw ∧
      match normalize raw atTop with
      | some out =>
        Text.Spaced (words raw) out.toList ∧
          (∀ c ∈ out.toList, isBlank c = true → c = ' ') ∧ ¬ [' ', ' '] <:+: out.toList ∧
          ('\n' ∈ raw → out.toList = unwords (words raw)) ∧
          normalize out.toList atTop = some out
      | none => words raw = [] := by
  refine ⟨(normalizeByLines_eq raw atTop).symm, Text.words_eq_iff.1 rfl, ?_⟩
  obtain ⟨hnone, hwords⟩ | ⟨text, hsome, hne, htext, htop, hfeed⟩ := exists_collapses raw atTop
  · rw [hnone]
    exact hwords
  · rw [hsome]
    dsimp only
    rw [String.toList_ofList]
    exact ⟨Text.words_eq_iff.1 htext.words, fun c hc => htext.blank hc, htext.single, hfeed,
      htext.normalize_eq hne htop⟩

end Jsx
end AgentSurface
