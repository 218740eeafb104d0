import Mathlib.Data.List.Induction
import AgentSurface.Proofs.Json.Brackets

/-!
# Json — places outside strings

Whether a place of a text stands in a string, and which brackets are open there, can be told from
the text before it: from the quotes that are not escaped, and from the brackets that are not quoted.

* `Outside q`: the text `q` ends outside strings.
* `LeavesOpen q closers`: it does, each of its brackets is closed by its like or is open at the end,
  and `closers` closes those that are open.
* `leavesOpen_iff`: in a text that can be completed, the scan finds the brackets that are open.
* `cuts_scan`: the scan keeps the last comma outside strings.
-/

namespace AgentSurface.Json

variable {text q closers : List Char} {s : State} {v : Json}

/-! ### Strings and brackets -/

/-- What stands in a string between its quotes. -/
inductive Body : List Char → Prop where
  | nil : Body []
  | char {c : Char} {rest : List Char} (hquote : c ≠ '"') (hslash : c ≠ '\\') (h : Body rest) :
      Body (c :: rest)
  | escape {c : Char} {rest : List Char} (h : Body rest) : Body ('\\' :: c :: rest)

/-- The text ends outside strings. -/
inductive Outside : List Char → Prop where
  | nil : Outside []
  | char {q : List Char} {c : Char} (h : Outside q) (hquote : c ≠ '"') : Outside (q ++ [c])
  | string {q body : List Char} (h : Outside q) (hbody : Body body) :
      Outside (q ++ '"' :: (body ++ ['"']))

/-- The text ends outside strings, and the brackets close what is open in it, innermost first. -/
inductive LeavesOpen : List Char → List Char → Prop where
  | nil : LeavesOpen [] []
  | plain {q closers : List Char} {c : Char} (h : LeavesOpen q closers) (hc : Plain c) :
      LeavesOpen (q ++ [c]) closers
  | string {q closers body : List Char} (h : LeavesOpen q closers) (hbody : Body body) :
      LeavesOpen (q ++ '"' :: (body ++ ['"'])) closers
  | openList {q closers : List Char} (h : LeavesOpen q closers) :
      LeavesOpen (q ++ ['[']) (']' :: closers)
  | openObject {q closers : List Char} (h : LeavesOpen q closers) :
      LeavesOpen (q ++ ['{']) ('}' :: closers)
  | closeList {q closers : List Char} (h : LeavesOpen q (']' :: closers)) :
      LeavesOpen (q ++ [']']) closers
  | closeObject {q closers : List Char} (h : LeavesOpen q ('}' :: closers)) :
      LeavesOpen (q ++ ['}']) closers

/-- Bodies of strings may be joined. -/
theorem Body.append {body more : List Char} (h : Body body) (hmore : Body more) :
    Body (body ++ more) := by
  induction h with
  | nil => exact hmore
  | char hquote hslash _ ih => exact .char hquote hslash ih
  | escape _ ih => exact .escape ih

/-! ### What the scan finds -/

/-- The body of a string leaves the brackets inside that string. -/
theorem Body.nesting {body : List Char} (h : Body body) (closers : List Char) :
    body.foldl Nesting.step ⟨true, false, closers⟩ = ⟨true, false, closers⟩ := by
  induction h with
  | nil => rfl
  | char hquote hslash _ ih => rwa [List.foldl_cons, Nesting.step_inside hquote hslash]
  | escape _ ih => exact ih

/-- A whole string leaves the brackets as they were. -/
theorem foldl_string {body : List Char} (h : Body body) (closers : List Char) :
    ('"' :: (body ++ ['"'])).foldl Nesting.step { closers } = { closers } := by
  rw [List.foldl_cons, List.foldl_append]
  show List.foldl Nesting.step (body.foldl Nesting.step ⟨true, false, closers⟩) ['"'] = _
  rw [h.nesting]
  rfl

/-- Outside strings a character that is no quote leads outside strings. -/
theorem Nesting.exists_step {c : Char} (h : c ≠ '"') (closers : List Char) :
    ∃ closers', Nesting.step { closers } c = { closers := closers' } := by
  simp only [Nesting.step, Bool.false_eq_true, if_false, if_neg h]
  repeat' split
  all_goals exact ⟨_, rfl⟩

/-- The scan knows when it is outside strings. -/
theorem Outside.exists_nesting (h : Outside q) : ∃ closers, (scan q).nesting = { closers } := by
  simp only [nesting_scan]
  induction h with
  | nil => exact ⟨[], rfl⟩
  | char _ hquote ih =>
    obtain ⟨closers, hclosers⟩ := ih
    rw [List.foldl_append, hclosers]
    exact Nesting.exists_step hquote closers
  | string _ hbody ih =>
    obtain ⟨closers, hclosers⟩ := ih
    exact ⟨closers, by rw [List.foldl_append, hclosers, foldl_string hbody]⟩

/-- A text that leaves brackets open is scanned to just these. -/
theorem LeavesOpen.nesting (h : LeavesOpen q closers) : (scan q).nesting = { closers } := by
  rw [nesting_scan]
  induction h with
  | nil => rfl
  | @plain q closers c _ hc ih =>
    rw [List.foldl_append, ih]
    show Nesting.step { closers } c = _
    exact Nesting.step_of_plain rfl hc
  | string _ hbody ih => rw [List.foldl_append, ih, foldl_string hbody]
  | openList _ ih | openObject _ ih | closeList _ ih | closeObject _ ih =>
    rw [List.foldl_append, ih]
    rfl

/-! ### What the reader makes sure of -/

/-- What the scan knows of a text is so. -/
inductive Placed : List Char → Nesting → Prop where
  | outside {q closers : List Char} (h : LeavesOpen q closers) : Placed q { closers }
  | inside {q closers body : List Char} (h : LeavesOpen q closers) (hbody : Body body) :
      Placed (q ++ '"' :: body) ⟨true, false, closers⟩
  | escape {q closers body : List Char} (h : LeavesOpen q closers) (hbody : Body body) :
      Placed (q ++ '"' :: (body ++ ['\\'])) ⟨true, true, closers⟩

/-- One more character, which closes a bracket of its kind if it closes any. -/
theorem Placed.step {c : Char} {n : Nesting} (h : Placed q n)
    (hclose : c = ']' ∨ c = '}' → n.inString = false → ∃ closers, n.closers = c :: closers) :
    Placed (q ++ [c]) (n.step c) := by
  cases h with
  | @outside q closers h =>
    -- What is neither a quote nor a bracket leaves open what was open.
    by_cases hquote : c = '"'
    · subst hquote; exact .inside h .nil
    by_cases hbrace : c = '{'
    · subst hbrace; exact .outside h.openObject
    by_cases hbracket : c = '['
    · subst hbracket; exact .outside h.openList
    by_cases hends : c = ']' ∨ c = '}'
    · obtain ⟨outer, rfl⟩ := hclose hends rfl
      obtain rfl | rfl := hends
      · exact .outside h.closeList
      · exact .outside h.closeObject
    · have hplain : Plain c := by
        simp only [Plain, List.mem_cons, List.not_mem_nil, or_false, not_or]
        exact ⟨hquote, hbrace, hbracket, fun h => hends (.inr h), fun h => hends (.inl h)⟩
      rw [Nesting.step_of_plain rfl hplain]
      exact .outside (h.plain hplain)
  | @inside q closers body h hbody =>
    rw [List.append_assoc, List.cons_append]
    by_cases hslash : c = '\\'
    · subst hslash; exact .escape h hbody
    by_cases hquote : c = '"'
    · subst hquote; exact .outside (h.string hbody)
    · rw [Nesting.step_inside hquote hslash]
      exact .inside h (hbody.append (.char hquote hslash .nil))
  | @escape q closers body h hbody =>
    rw [List.append_assoc, List.cons_append, List.append_assoc]
    exact .inside h (hbody.append (.escape .nil))

/-- In a text that can be completed, what the reader knows to be open is so. -/
theorem Placed.of_feed (h : Text.feed State.step .initial q = .ok s) (hv : s.MayBecome v) :
    Placed q s.nesting := by
  induction q using List.reverseRecOn generalizing s with
  | nil => cases h; exact .outside .nil
  | append_singleton q c ih =>
    obtain ⟨before, hbefore, hstep⟩ := Text.exists_feed_of_concat h
    have hmove := Move.of_step hstep
    have hsound := sound_of_feed hbefore
    rw [← hmove.nesting hsound hv]
    exact (ih hbefore (hmove.mayBecome hv)).step fun hc => hmove.closing hc hsound

/-- **The scan finds the brackets that are open.** -/
theorem leavesOpen_iff (h : Text.feed State.step .initial q = .ok s) (hv : s.MayBecome v) :
    LeavesOpen q closers ↔ (scan q).nesting = { closers } := by
  refine ⟨LeavesOpen.nesting, fun hscan => ?_⟩
  have hplaced := Placed.of_feed h hv
  rw [← nesting_scan_of_feed h hv, hscan] at hplaced
  generalize hn : ({ closers } : Nesting) = n at hplaced
  cases hplaced with
  | outside hopen => cases hn; exact hopen
  | inside => cases hn
  | escape => cases hn

/-! ### The last comma -/

/-- A comma outside strings follows in the text. -/
def CommaBehind (q text : List Char) : Prop :=
  q ++ [','] <+: text ∧ (scan q).nesting.inString = false

theorem length_scan (text : List Char) : (scan text).length = text.length := by
  have hrun : ∀ s : Scan, (text.foldl Scan.step s).length = s.length + text.length := by
    intro s
    induction text generalizing s with
    | nil => rfl
    | cons c rest ih =>
      rw [List.foldl_cons, ih, List.length_cons]
      show s.length + 1 + rest.length = _
      omega
  rw [scan, hrun]
  exact Nat.zero_add _

/-- One more character is one more step of the scan. -/
theorem scan_concat (text : List Char) (c : Char) :
    scan (text ++ [c]) = (scan text).step c := by
  rw [scan, List.foldl_append]
  rfl

/-- A comma outside strings marks its place as soon as it is read. -/
theorem commaBehind_concat {c : Char} :
    CommaBehind q (text ++ [c]) ↔
      CommaBehind q text ∨ (q = text ∧ c = ',' ∧ (scan text).nesting.inString = false) := by
  unfold CommaBehind
  rw [List.prefix_concat_iff]
  constructor
  · rintro ⟨heq | hbegin, hout⟩
    · obtain ⟨rfl, hc⟩ := List.append_inj' heq rfl
      exact .inr ⟨rfl, (List.singleton_inj.1 hc).symm, hout⟩
    · exact .inl ⟨hbegin, hout⟩
  · rintro (⟨hbegin, hout⟩ | ⟨rfl, rfl, hout⟩)
    · exact ⟨.inr hbegin, hout⟩
    · exact ⟨.inl rfl, hout⟩

/-- The scan keeps the last comma outside strings, if the text has one. -/
theorem cuts_scan (text : List Char) :
    ((scan text).cuts = [] ∧ ∀ q, ¬ CommaBehind q text) ∨
      ∃ last cuts, (scan text).cuts = ⟨last.length, (scan last).nesting⟩ :: cuts ∧
        CommaBehind last text ∧ ∀ q, CommaBehind q text → q <+: last := by
  induction text using List.reverseRecOn with
  | nil =>
    refine .inl ⟨rfl, fun q h => ?_⟩
    simpa using List.prefix_nil.1 h.1
  | append_singleton text c ih =>
    rw [scan_concat]
    -- A new last comma has the whole text before it, and so every other comma.
    by_cases hc : c = ',' ∧ (scan text).nesting.inString = false
    · refine .inr ⟨text, (scan text).cuts.take (maxCuts - 1), ?_,
        commaBehind_concat.2 (.inr ⟨rfl, hc⟩), ?_⟩
      · rw [Scan.step, if_pos hc, length_scan]
        rfl
      · intro q hq
        obtain hq | ⟨rfl, -⟩ := commaBehind_concat.1 hq
        · exact (List.prefix_append q [',']).trans hq.1
        · exact List.prefix_rfl
    · have hsame : ∀ q, CommaBehind q (text ++ [c]) ↔ CommaBehind q text := fun q =>
        commaBehind_concat.trans (or_iff_left fun h => hc h.2)
      simp only [Scan.step, if_neg hc, hsame]
      exact ih

end AgentSurface.Json
