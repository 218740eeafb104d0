import AgentSurface.Proofs.Json.Places

/-!
# Json — the preview without remembering

The scan of a text remembers its last commas outside strings, and what was open before each of them.
All of that can be found again from the text alone: `outerCommas` looks for the commas, and a scan
of the text before a comma tells what is open there.  `rescan` is the preview that remembers nothing
and scans again wherever it cuts, at the cost of going over the text once more for each cut.

Nothing is assumed of the text: brackets may not match, quotes and backslashes may stand anywhere.

* `outside_iff`: whether a place is outside strings can be told by a scan.
* `cuts_eq`: the scan remembers the last commas, each with what a scan of the text before it finds.
* `preview_eq_rescan`: nothing is lost by scanning once.
-/

namespace AgentSurface.Json

variable {text q : List Char}

/-! ### Places outside strings -/

/-- The text ends where a scan that knows this may be: outside strings, in a string, or in a string
behind a backslash that escapes what comes next. -/
def EndsIn (q : List Char) (n : Nesting) : Prop :=
  match n.inString, n.escaped with
  | false, escaped => Outside q ∧ escaped = false
  | true, false => ∃ before body, q = before ++ '"' :: body ∧ Outside before ∧ Body body
  | true, true => ∃ before body, q = before ++ '"' :: (body ++ ['\\']) ∧ Outside before ∧ Body body

theorem EndsIn.step {n : Nesting} (h : EndsIn q n) (c : Char) : EndsIn (q ++ [c]) (n.step c) := by
  obtain ⟨inString, escaped, closers⟩ := n
  cases inString with
  | false =>
    obtain ⟨houtside, rfl⟩ := h
    by_cases hquote : c = '"'
    · subst hquote
      exact ⟨q, [], rfl, houtside, .nil⟩
    · obtain ⟨closers', hstep⟩ := Nesting.exists_step hquote closers
      rw [hstep]
      exact ⟨houtside.char hquote, rfl⟩
  | true =>
    cases escaped with
    | false =>
      obtain ⟨before, body, rfl, houtside, hbody⟩ := h
      rw [List.append_assoc, List.cons_append]
      by_cases hslash : c = '\\'
      · subst hslash
        exact ⟨before, body, rfl, houtside, hbody⟩
      by_cases hquote : c = '"'
      · subst hquote
        exact ⟨houtside.string hbody, rfl⟩
      · rw [Nesting.step_inside hquote hslash]
        exact ⟨before, _, rfl, houtside, hbody.append (.char hquote hslash .nil)⟩
    | true =>
      obtain ⟨before, body, rfl, houtside, hbody⟩ := h
      rw [List.append_assoc, List.cons_append, List.append_assoc]
      exact ⟨before, _, rfl, houtside, hbody.append (.escape .nil)⟩

theorem endsIn_scan (q : List Char) : EndsIn q (scan q).nesting := by
  induction q using List.reverseRecOn with
  | nil => exact ⟨.nil, rfl⟩
  | append_singleton q c ih =>
    rw [scan_concat]
    exact ih.step c

/-- **A scan tells whether a text ends outside strings.** -/
theorem outside_iff : Outside q ↔ (scan q).nesting.inString = false := by
  refine ⟨fun h => ?_, fun h => ?_⟩
  · obtain ⟨closers, hclosers⟩ := h.exists_nesting
    rw [hclosers]
  · have hends := endsIn_scan q
    unfold EndsIn at hends
    rw [h] at hends
    exact hends.1

instance : DecidablePred Outside := fun _ => decidable_of_iff _ outside_iff.symm

/-! ### The commas outside strings -/

/-- How many characters stand before each comma outside strings, the first comma first. -/
def outerCommas (text : List Char) : List Nat :=
  (List.range text.length).filter fun i => text[i]? = some ',' ∧ Outside (text.take i)

/-- A comma outside strings is found, and nothing else. -/
theorem mem_outerCommas {i : Nat} :
    i ∈ outerCommas text ↔ text[i]? = some ',' ∧ Outside (text.take i) := by
  rw [outerCommas, List.mem_filter, List.mem_range, decide_eq_true_eq]
  exact and_iff_right_of_imp fun h => (List.getElem?_eq_some_iff.1 h.1).1

example : outerCommas "[1,\",\",2".toList = [2, 6] := by decide

/-- The next character is one more comma, if it is one and stands outside strings. -/
theorem outerCommas_concat (text : List Char) (c : Char) :
    outerCommas (text ++ [c]) =
      outerCommas text ++ if c = ',' ∧ Outside text then [text.length] else [] := by
  have hbefore : ∀ i ∈ List.range text.length,
      decide ((text ++ [c])[i]? = some ',' ∧ Outside ((text ++ [c]).take i)) =
        decide (text[i]? = some ',' ∧ Outside (text.take i)) := by
    intro i hi
    have hlt : i < text.length := List.mem_range.1 hi
    rw [List.getElem?_append_left hlt, List.take_append_of_le_length (Nat.le_of_lt hlt)]
  rw [outerCommas, List.length_append, List.length_singleton, List.range_succ, List.filter_append,
    List.filter_congr hbefore, ← outerCommas]
  simp [List.filter_singleton]

/-! ### What the scan remembers -/

/-- What is found again about a comma. -/
def cutAt (text : List Char) (i : Nat) : Cut := ⟨i, (scan (text.take i)).nesting⟩

theorem cutAt_append {i : Nat} (h : i ≤ text.length) (rest : List Char) :
    cutAt (text ++ rest) i = cutAt text i := by
  rw [cutAt, List.take_append_of_le_length h, cutAt]

theorem le_length_of_mem {i : Nat} (h : i ∈ (outerCommas text).reverse.take maxCuts) :
    i ≤ text.length :=
  have hcomma := (mem_outerCommas.1 (List.mem_reverse.1 (List.mem_of_mem_take h))).1
  Nat.le_of_lt (List.getElem?_eq_some_iff.1 hcomma).1

/-- **The scan remembers the last commas outside strings**, the last one first, each with what a
scan of the text before it finds. -/
theorem cuts_eq (text : List Char) :
    (scan text).cuts = ((outerCommas text).reverse.take maxCuts).map (cutAt text) := by
  induction text using List.reverseRecOn with
  | nil => rfl
  | append_singleton text c ih =>
    -- What was remembered before is found again in the longer text.
    have hsame : ((outerCommas text).reverse.take maxCuts).map (cutAt (text ++ [c])) =
        (scan text).cuts := by
      rw [ih]
      exact List.map_congr_left fun i hi => cutAt_append (le_length_of_mem hi) [c]
    have hhere : cutAt (text ++ [c]) text.length = ⟨text.length, (scan text).nesting⟩ := by
      rw [cutAt_append (Nat.le_refl _), cutAt, List.take_length]
    rw [scan_concat, outerCommas_concat, Scan.step]
    by_cases hcomma : c = ',' ∧ Outside text
    · have hscan := (and_congr_right' outside_iff).1 hcomma
      rw [if_pos hcomma, if_pos hscan, List.reverse_append, List.reverse_singleton,
        List.singleton_append, length_scan, ← hhere, ← hsame]
      simp [maxCuts, List.take_take]
    · have hscan := fun h => hcomma ((and_congr_right' outside_iff).2 h)
      rw [if_neg hcomma, if_neg hscan, List.append_nil, hsame]

/-! ### The preview -/

/-- Read the text with all closed that a scan of it finds open. -/
def closeAndRead (text : List Char) : Option Json := closeAndParse text (scan text).nesting

/-- The value that an unfinished text seems to become, found by scanning again for each cut: the
value of the text, of the text with all closed that is open in it, or of the text before one of its
last commas outside strings, closed in the same way; the last comma is tried first. -/
def rescan (source : List Char) : Option Json :=
  let text := Text.trim source
  match parse? text with
  | some v => some v
  | none =>
    match closeAndRead text with
    | some v => some v
    | none => ((outerCommas text).reverse.take 8).findSome? fun i => closeAndRead (text.take i)

/-- **The preview is found in a single pass.**  For every text, well-formed or not, the preview is
what is found by scanning again for each cut. -/
theorem preview_eq_rescan (source : List Char) : preview source = rescan source := by
  have hcuts : ∀ text : List Char,
      ((scan text).cuts.findSome? fun cut => closeAndParse (text.take cut.length) cut.nesting) =
        ((outerCommas text).reverse.take 8).findSome? fun i => closeAndRead (text.take i) := by
    intro text
    rw [cuts_eq, List.findSome?_map]
    rfl
  simp only [preview, rescan, hcuts]
  split
  · next hempty =>
    -- Of an empty text nothing can be read, and it has no commas to cut at.
    rw [List.isEmpty_iff.1 hempty]
    rfl
  · rfl

end AgentSurface.Json
