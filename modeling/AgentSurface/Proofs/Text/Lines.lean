/-!
# Text — lines

`lines` cuts a text behind its line feeds, so that only the last line can lack one.

* `flatten_lines`: the lines joined are the text.
* `lines_append_feed`, `lines_append_of_not_mem`: a text that has no line feed is the beginning of
  one line, which ends with the next line feed.
* `lines_flatten_append`, `lines_append_cons_feed`: the lines of a text are those of its beginning
  and those of the rest, if the beginning ends with a line feed.
* `exists_whole_append`: a text is whole lines, and then a line that lacks its line feed.
* `lines_flatten_of_append`, `lines_flatten_of_infix`: some lines of a text, joined, have these lines
  again.
* `forall_lines_append`: what holds of the lines of two texts holds of the lines of both together,
  if it holds of two lines joined.
-/

namespace AgentSurface.Text

/-- The lines of a text, each with its line feed if it has one. -/
def lines : List Char → List (List Char)
  | [] => []
  | c :: rest =>
    if c = '\n' then [c] :: lines rest
    else
      match lines rest with
      | [] => [[c]]
      | line :: more => (c :: line) :: more

/-- The lines of a text, joined, are the text. -/
theorem flatten_lines (s : List Char) : (lines s).flatten = s := by
  induction s with
  | nil => rfl
  | cons c rest ih =>
    by_cases hc : c = '\n'
    · simp [lines, hc, ih]
    · cases h : lines rest with
      | nil => rw [h] at ih; simp_all [lines]
      | cons line more => rw [h] at ih; simp_all [lines]

/-- A line ends at its first line break. -/
theorem lines_append_feed {s : List Char} (h : '\n' ∉ s) (rest : List Char) :
    lines (s ++ '\n' :: rest) = (s ++ ['\n']) :: lines rest := by
  induction s with
  | nil => simp [lines]
  | cons c s ih =>
    obtain ⟨hc, hs⟩ := List.ne_and_not_mem_of_not_mem_cons h
    rw [List.cons_append, lines, if_neg (Ne.symm hc), ih hs]
    rfl

/-- An open line is the beginning of the first line behind it. -/
theorem lines_append_of_not_mem {s : List Char} (h : '\n' ∉ s) (hne : s ≠ []) (rest : List Char) :
    lines (s ++ rest) = (s ++ (lines rest).headD []) :: (lines rest).tail := by
  induction s with
  | nil => exact absurd rfl hne
  | cons c s ih =>
    obtain ⟨hc, hs⟩ := List.ne_and_not_mem_of_not_mem_cons h
    rw [List.cons_append, lines, if_neg (Ne.symm hc)]
    cases s with
    | nil => cases hrest : lines rest <;> simp [hrest]
    | cons d s => rw [ih hs (by simp)]; rfl

theorem lines_of_not_mem {s : List Char} (h : '\n' ∉ s) (hne : s ≠ []) : lines s = [s] := by
  simpa [lines] using lines_append_of_not_mem h hne []

/-- The line ends with its line feed. -/
def Whole (line : List Char) : Prop := ∃ s, '\n' ∉ s ∧ line = s ++ ['\n']

/-- Whole lines stay as they are, whatever stands behind them. -/
theorem lines_flatten_append {whole : List (List Char)} (h : ∀ line ∈ whole, Whole line)
    (rest : List Char) : lines (whole.flatten ++ rest) = whole ++ lines rest := by
  induction whole with
  | nil => rfl
  | cons line whole ih =>
    obtain ⟨s, hs, rfl⟩ := h line (by simp)
    have hlines := lines_append_feed hs (whole.flatten ++ rest)
    rw [ih fun line hl => h line (by simp [hl])] at hlines
    simpa using hlines

/-- Whole lines, joined, are told apart again. -/
theorem lines_flatten_of_whole {whole : List (List Char)} (h : ∀ line ∈ whole, Whole line) :
    lines whole.flatten = whole := by
  simpa [lines] using lines_flatten_append h []

/-- Whole lines come first, and at most one line behind them lacks its line feed. -/
theorem exists_whole_append (s : List Char) :
    ∃ (whole : List (List Char)) (rest : List Char), s = whole.flatten ++ rest ∧
      (∀ line ∈ whole, Whole line) ∧ '\n' ∉ rest := by
  induction s with
  | nil => exact ⟨[], [], rfl, List.forall_mem_nil Whole, List.not_mem_nil⟩
  | cons c s ih =>
    obtain ⟨whole, rest, rfl, hwhole, hrest⟩ := ih
    by_cases hc : c = '\n'
    · exact ⟨[c] :: whole, rest, rfl,
        List.forall_mem_cons.2 ⟨⟨[], List.not_mem_nil, by rw [hc]; rfl⟩, hwhole⟩, hrest⟩
    · cases whole with
      | nil => exact ⟨[], c :: rest, rfl, List.forall_mem_nil Whole, by simp [Ne.symm hc, hrest]⟩
      | cons line whole =>
        obtain ⟨⟨s, hs, rfl⟩, hmore⟩ := List.forall_mem_cons.1 hwhole
        exact ⟨(c :: s ++ ['\n']) :: whole, rest, by simp,
          List.forall_mem_cons.2 ⟨⟨c :: s, by simp [Ne.symm hc, hs], rfl⟩, hmore⟩, hrest⟩

/-- Lines of a text, joined, are cut into the same lines again. -/
theorem lines_flatten_of_append {s : List Char} {xs ys : List (List Char)}
    (h : lines s = xs ++ ys) : lines xs.flatten = xs ∧ lines ys.flatten = ys := by
  obtain ⟨whole, rest, rfl, hwhole, hrest⟩ := exists_whole_append s
  rw [lines_flatten_append hwhole] at h
  -- The lines are cut before the last one, or there are none behind the cut.
  rcases List.append_eq_append_iff.1 h with ⟨more, rfl, hmore⟩ | ⟨more, rfl, hys⟩
  · by_cases hys : ys = []
    · rw [hys, List.append_nil] at hmore
      rw [hys, ← hmore, List.flatten_append, flatten_lines, lines_flatten_append hwhole]
      exact ⟨rfl, rfl⟩
    · have hlast : more = [] := by
        by_cases hnil : rest = []
        · rw [hnil] at hmore
          simp [lines, hys] at hmore
        · rw [lines_of_not_mem hrest hnil] at hmore
          rcases List.singleton_eq_append_iff.1 hmore with ⟨hlast, -⟩ | ⟨-, hnone⟩
          · exact hlast
          · exact absurd hnone hys
      rw [hlast, List.nil_append] at hmore
      rw [hlast, List.append_nil, ← hmore, flatten_lines]
      exact ⟨lines_flatten_of_whole hwhole, rfl⟩
  · obtain ⟨hxs, hmore⟩ := List.forall_mem_append.1 hwhole
    rw [hys, List.flatten_append, flatten_lines, lines_flatten_append hmore]
    exact ⟨lines_flatten_of_whole hxs, rfl⟩

/-- Neighbouring lines of a text, joined, are cut into the same lines again. -/
theorem lines_flatten_of_infix {xs : List (List Char)} (h : xs <:+: lines s) :
    lines xs.flatten = xs := by
  obtain ⟨first, last, hlines⟩ := h
  rw [List.append_assoc] at hlines
  obtain ⟨-, hrest⟩ := lines_flatten_of_append hlines.symm
  exact (lines_flatten_of_append hrest).1

/-- A line feed inside a text divides its lines. -/
theorem lines_append_cons_feed (s rest : List Char) :
    lines (s ++ '\n' :: rest) = lines (s ++ ['\n']) ++ lines rest := by
  induction s with
  | nil => rfl
  | cons c s ih =>
    by_cases hc : c = '\n'
    · simp only [List.cons_append, lines, if_pos hc, ih]
    · cases h : lines (s ++ ['\n']) with
      | nil =>
        have hflat := flatten_lines (s ++ ['\n'])
        rw [h] at hflat
        simp at hflat
      | cons line more =>
        simp only [List.cons_append, lines, if_neg hc, ih, h]

theorem mem_of_mem_lines {s line : List Char} (h : line ∈ lines s) {c : Char} (hc : c ∈ line) :
    c ∈ s := by
  rw [← flatten_lines s]
  exact List.mem_flatten_of_mem h hc

/-- The line that is open between two texts is one of the first joined with one of the second. -/
theorem forall_lines_append {P : List Char → Prop} (hP : ∀ x y, P x → P y → P (x ++ y))
    {s t : List Char} (hs : ∀ line ∈ lines s, P line) (ht : ∀ line ∈ lines t, P line) :
    ∀ line ∈ lines (s ++ t), P line := by
  -- The induction carries the part of the open line that was passed already.
  have hopen : ∀ s before : List Char, '\n' ∉ before → (∀ line ∈ lines (before ++ s), P line) →
      ∀ line ∈ lines (before ++ (s ++ t)), P line := by
    intro s
    induction s with
    | nil =>
      intro before hbefore hlines
      by_cases hne : before = []
      · simpa [hne] using ht
      · rw [List.append_nil, lines_of_not_mem hbefore hne] at hlines
        have hfirst : P before := hlines before List.mem_cons_self
        rw [List.nil_append, lines_append_of_not_mem hbefore hne]
        cases hrest : lines t with
        | nil => simpa using hfirst
        | cons line more =>
          rw [hrest] at ht
          obtain ⟨hline, hmore⟩ := List.forall_mem_cons.1 ht
          exact List.forall_mem_cons.2 ⟨hP before line hfirst hline, hmore⟩
    | cons c s ih =>
      intro before hbefore hlines
      by_cases hc : c = '\n'
      · subst hc
        rw [lines_append_feed hbefore] at hlines
        rw [List.cons_append, lines_append_feed hbefore]
        obtain ⟨hfirst, hmore⟩ := List.forall_mem_cons.1 hlines
        exact List.forall_mem_cons.2 ⟨hfirst, ih [] (by simp) hmore⟩
      · have hnext := ih (before ++ [c]) (by simpa using ⟨hbefore, Ne.symm hc⟩)
        simp only [List.append_assoc, List.singleton_append] at hnext
        exact hnext hlines
  exact hopen s [] (by simp) hs

end AgentSurface.Text
