import Mathlib.Data.List.DropRight
import AgentSurface.Text.Blank

/-!
# Text — what is taken off the ends

`Strips p q s core` says, without computing anything, that `core` is left of `s` when characters of
`p` are taken off its beginning and characters of `q` off its end.

* `trim_eq_iff`: `trim` is the computation for blanks at both ends.
* `trim_blank_append`, `trim_append_blank`: more blanks at an end change nothing.
* `dropEndWhile_prefix_append`, `dropWhile_isPrefix`: more text behind a text does not change what
  is left of the text before, except that there may be more of it.
-/

namespace AgentSurface.Text

variable {p q : Char → Bool} {s t core : List Char}

/-- `core` is what is left of `s` without a beginning of `p`-characters and an ending of
`q`-characters, both as long as possible. -/
structure Strips (p q : Char → Bool) (s core : List Char) : Prop where
  parts : ∃ before behind, s = before ++ core ++ behind ∧ (∀ c ∈ before, p c = true) ∧
    ∀ c ∈ behind, q c = true
  head : ∀ c ∈ core.head?, p c = false
  last : ∀ c ∈ core.getLast?, q c = false

/-! ### Beginnings -/

/-- What is all dropped can be left out at the beginning. -/
theorem dropWhile_append_of_all (h : ∀ c ∈ s, p c = true) (t : List Char) :
    (s ++ t).dropWhile p = t.dropWhile p := by
  induction s with
  | nil => rfl
  | cons c rest ih =>
    rw [List.cons_append, List.dropWhile_cons_of_pos (h c (by simp))]
    exact ih fun d hd => h d (by simp [hd])

/-- Nothing is dropped from a text whose first character stays. -/
theorem dropWhile_of_head (h : ∀ c ∈ s.head?, p c = false) : s.dropWhile p = s := by
  cases s with
  | nil => rfl
  | cons c rest => rw [List.dropWhile_cons_of_neg]; simpa using h c rfl

theorem head?_dropWhile (p : Char → Bool) (s : List Char) :
    ∀ c ∈ (s.dropWhile p).head?, p c = false := by
  intro c hc
  have := List.head?_dropWhile_not p s
  rw [Option.mem_def.1 hc] at this
  exact this

/-- A longer text has more left, or the same. -/
theorem dropWhile_isPrefix (h : s <+: t) : s.dropWhile p <+: t.dropWhile p := by
  obtain ⟨more, rfl⟩ := h
  induction s with
  | nil => exact List.nil_prefix
  | cons c rest ih =>
    by_cases hc : p c = true
    · simpa only [List.cons_append, List.dropWhile_cons_of_pos hc] using ih
    · simp only [List.cons_append, List.dropWhile_cons_of_neg hc]
      exact ⟨more, rfl⟩

/-! ### Endings -/

/-- What is all dropped can be left out at the end. -/
theorem dropEndWhile_append_of_all (s : List Char) (h : ∀ c ∈ t, p c = true) :
    dropEndWhile p (s ++ t) = dropEndWhile p s := by
  simp only [dropEndWhile, List.reverse_append]
  rw [dropWhile_append_of_all (by simpa using h)]

/-- Nothing is dropped from a text whose last character stays. -/
theorem dropEndWhile_of_last (h : ∀ c ∈ s.getLast?, p c = false) : dropEndWhile p s = s := by
  rw [dropEndWhile, dropWhile_of_head (by simpa using h), List.reverse_reverse]

/-- The last character of what is left is none to be dropped. -/
theorem getLast?_dropEndWhile (p : Char → Bool) (s : List Char) :
    ∀ c ∈ (dropEndWhile p s).getLast?, p c = false := by
  simpa [dropEndWhile] using head?_dropWhile p s.reverse

/-- What is dropped from the end consists of characters to be dropped. -/
theorem exists_dropEndWhile_append (p : Char → Bool) (s : List Char) :
    ∃ behind, s = dropEndWhile p s ++ behind ∧ ∀ c ∈ behind, p c = true := by
  refine ⟨(s.reverse.takeWhile p).reverse, ?_, fun c hc => ?_⟩
  · rw [dropEndWhile, ← List.reverse_append, List.takeWhile_append_dropWhile, List.reverse_reverse]
  · exact List.mem_takeWhile_imp (List.mem_reverse.1 hc)

theorem dropEndWhile_isPrefix (p : Char → Bool) (s : List Char) : dropEndWhile p s <+: s :=
  List.rdropWhile_prefix p s

/-- A longer text has more left, or the same. -/
theorem dropEndWhile_prefix_append (p : Char → Bool) (s t : List Char) :
    dropEndWhile p s <+: dropEndWhile p (s ++ t) := by
  by_cases ht : ∀ c ∈ t, p c = true
  · exact (dropEndWhile_append_of_all s ht).symm ▸ List.prefix_rfl
  · -- Something of `t` is left, and all of `s` stands before it.
    have hne : t.reverse.dropWhile p ≠ [] := by
      intro h
      exact ht fun c hc => List.dropWhile_eq_nil_iff.1 h c (by simpa using hc)
    have heq : dropEndWhile p (s ++ t) = s ++ dropEndWhile p t := by
      rw [dropEndWhile, List.reverse_append, List.dropWhile_append, if_neg (by simpa using hne),
        List.reverse_append, List.reverse_reverse, dropEndWhile]
    rw [heq]
    exact (dropEndWhile_isPrefix p s).trans (List.prefix_append s _)

/-! ### Both ends -/

/-- Stripping at the end and then at the beginning strips at both. -/
theorem strips_dropWhile_dropEndWhile (p q : Char → Bool) (s : List Char) :
    Strips p q s ((dropEndWhile q s).dropWhile p) := by
  obtain ⟨behind, hbehind, hall⟩ := exists_dropEndWhile_append q s
  refine ⟨⟨(dropEndWhile q s).takeWhile p, behind, ?_, fun c hc => List.mem_takeWhile_imp hc,
    hall⟩, head?_dropWhile p _, fun c hc => getLast?_dropEndWhile q s c ?_⟩
  · rwa [List.takeWhile_append_dropWhile]
  · rw [← List.takeWhile_append_dropWhile (p := p) (l := dropEndWhile q s)]
    exact List.mem_getLast?_append_of_mem_getLast? hc

/-- What is left is determined, if anything is left. -/
theorem Strips.eq (h : Strips p q s core) (hne : core ≠ []) :
    (dropEndWhile q s).dropWhile p = core := by
  obtain ⟨⟨before, behind, rfl, hbefore, hbehind⟩, hhead, hlast⟩ := h
  rw [dropEndWhile_append_of_all _ hbehind, dropEndWhile_of_last, dropWhile_append_of_all hbefore,
    dropWhile_of_head hhead]
  rwa [List.getLast?_append_of_ne_nil _ hne]

/-- **A trimmed text is what is between the blanks at its ends.** -/
theorem trim_eq_iff : trim s = core ↔ Strips isBlank isBlank s core := by
  constructor
  · rintro rfl
    obtain ⟨behind, hbehind, hall⟩ := exists_dropEndWhile_append isBlank (trimStart s)
    refine ⟨⟨s.takeWhile isBlank, behind, ?_, fun c hc => List.mem_takeWhile_imp hc, hall⟩, ?_,
      getLast?_dropEndWhile _ _⟩
    · rw [List.append_assoc]
      show s = s.takeWhile isBlank ++ (dropEndWhile isBlank (trimStart s) ++ behind)
      rw [← hbehind, trimStart, List.takeWhile_append_dropWhile]
    · intro c hc
      refine head?_dropWhile isBlank s c ?_
      obtain ⟨more, hmore⟩ := dropEndWhile_isPrefix isBlank (trimStart s)
      rw [← trimStart, ← hmore]
      exact List.mem_head?_append_of_mem_head? hc
  · rintro ⟨⟨before, behind, rfl, hbefore, hbehind⟩, hhead, hlast⟩
    rw [trim, trimStart, List.append_assoc, dropWhile_append_of_all hbefore, trimEnd]
    cases core with
    | nil =>
      rw [List.nil_append, List.dropWhile_eq_nil_iff.2 hbehind]
      rfl
    | cons c rest =>
      rw [dropWhile_of_head (s := c :: rest ++ behind) (by simpa using hhead),
        dropEndWhile_append_of_all _ hbehind, dropEndWhile_of_last hlast]

theorem trim_blank_append (h : ∀ c ∈ t, isBlank c = true) (s : List Char) :
    trim (t ++ s) = trim s := by
  rw [trim, trimStart, dropWhile_append_of_all h, trim, trimStart]

theorem trim_append_blank (s : List Char) (h : ∀ c ∈ t, isBlank c = true) :
    trim (s ++ t) = trim s := by
  obtain ⟨⟨b, e, hs, hb, he⟩, hhead, hlast⟩ := trim_eq_iff.1 (Eq.refl (trim s))
  refine trim_eq_iff.2 ⟨⟨b, e ++ t, ?_, hb, ?_⟩, hhead, hlast⟩
  · rw [← List.append_assoc, ← hs]
  · exact List.forall_mem_append.2 ⟨he, h⟩

end AgentSurface.Text
