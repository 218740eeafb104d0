import AgentSurface.Proofs.Text.Lines
import AgentSurface.Proofs.Text.Trim

/-!
# Text — blanks around a text

Blanks around a text make its first and its last line longer, and may make lines of blanks, but
what is left of each line without the blanks around it is the same.

* `exists_line_of_mem_core`: the lines of a text are there, up to blanks, with blanks around it.
* `exists_line_of_mem_lines_append_feed`: a line feed at the end makes no new line, up to blanks.
-/

namespace AgentSurface.Text

variable {s before behind line : List Char}

theorem exists_line_blank_append (h : ∀ c ∈ before, isBlank c = true) (hline : line ∈ lines s) :
    ∃ l ∈ lines (before ++ s), trim l = trim line := by
  induction before with
  | nil => exact ⟨line, hline, rfl⟩
  | cons c before ih =>
    obtain ⟨hc, hbefore⟩ := List.forall_mem_cons.1 h
    obtain ⟨l, hl, htrim⟩ := ih hbefore
    rw [List.cons_append, lines]
    split
    · exact ⟨l, List.mem_cons_of_mem _ hl, htrim⟩
    · cases hlines : lines (before ++ s) with
      | nil => rw [hlines] at hl; cases hl
      | cons first more =>
        rw [hlines] at hl
        -- The blank is put before the first line.
        rcases List.mem_cons.1 hl with rfl | hl
        · exact ⟨c :: l, List.mem_cons_self,
            (trim_blank_append (List.forall_mem_singleton.2 hc) l).trans htrim⟩
        · exact ⟨l, List.mem_cons_of_mem _ hl, htrim⟩

theorem exists_line_append_blank (h : ∀ c ∈ behind, isBlank c = true) (hline : line ∈ lines s) :
    ∃ l ∈ lines (s ++ behind), trim l = trim line := by
  obtain ⟨whole, rest, rfl, hwhole, hrest⟩ := exists_whole_append s
  rw [lines_flatten_append hwhole] at hline
  rw [List.append_assoc, lines_flatten_append hwhole]
  rcases List.mem_append.1 hline with hline | hline
  · exact ⟨line, List.mem_append_left _ hline, rfl⟩
  · by_cases hne : rest = []
    · rw [hne] at hline; cases hline
    · -- The last line gets the first of the blank lines.
      rw [lines_of_not_mem hrest hne] at hline
      obtain rfl := List.mem_singleton.1 hline
      rw [lines_append_of_not_mem hrest hne]
      refine ⟨_, List.mem_append_right _ List.mem_cons_self, trim_append_blank line ?_⟩
      cases hlines : lines behind with
      | nil => exact List.forall_mem_nil _
      | cons first more =>
        exact fun c hc => h c (mem_of_mem_lines (by rw [hlines]; exact List.mem_cons_self) hc)

/-- With blanks around a text, its lines are there as before, up to blanks. -/
theorem exists_line_of_mem_core (hbefore : ∀ c ∈ before, isBlank c = true)
    (hbehind : ∀ c ∈ behind, isBlank c = true) (hline : line ∈ lines s) :
    ∃ l ∈ lines (before ++ s ++ behind), trim l = trim line := by
  obtain ⟨l, hl, htrim⟩ := exists_line_blank_append hbefore hline
  obtain ⟨l', hl', htrim'⟩ := exists_line_append_blank hbehind hl
  exact ⟨l', hl', htrim'.trans htrim⟩

/-- A line feed at the end makes no line, up to blanks, except one of blanks. -/
theorem exists_line_of_mem_lines_append_feed (hline : line ∈ lines (s ++ ['\n'])) :
    trim line = [] ∨ ∃ l ∈ lines s, trim l = trim line := by
  obtain ⟨whole, rest, rfl, hwhole, hrest⟩ := exists_whole_append s
  have hfeed : ∀ c ∈ ['\n'], isBlank c = true := List.forall_mem_singleton.2 rfl
  rw [List.append_assoc, lines_flatten_append hwhole, lines_append_feed hrest] at hline
  rw [lines_flatten_append hwhole]
  rcases List.mem_append.1 hline with hline | hline
  · exact .inr ⟨line, List.mem_append_left _ hline, rfl⟩
  · obtain rfl := List.mem_singleton.1 hline
    rw [trim_append_blank rest hfeed]
    by_cases hne : rest = []
    · exact .inl (by rw [hne]; rfl)
    · exact .inr ⟨rest, List.mem_append_right _ (by simp [lines_of_not_mem hrest hne]), rfl⟩

end AgentSurface.Text
