import AgentSurface.Proofs.Json.Brackets
import AgentSurface.Proofs.Text.Trim

/-!
# Json — repairing a text that breaks off

A text breaks off inside a string, behind a separator, or elsewhere.  A repair closes the string,
drops the comma or puts `null` behind the colon, and closes the brackets that are open; what it
reads then is a closed value, of the machine behind the text or before its last character.

* `repair_approximates`: a repair that can be read shows nothing that the whole text does not have.
* `gives?_repair`: outside strings, where the containers can be closed, the repair closes them.
-/

namespace AgentSurface.Json

variable {text : List Char} {s : State} {v w a : Json} {n : Nesting}

/-! ### The parts of a repair -/

/-- Inside a string the repair drops a lone backslash and closes the string and what is open. -/
theorem repair_inside (h : n.inString = true) (htrim : Text.trimEnd text = text) :
    repair text n =
      (if n.escaped then text.dropLast else text) ++ '"' :: n.closers := by
  have hquote : ∀ begun : List Char, Text.trimEnd (begun ++ ['"']) = begun ++ ['"'] := fun begun =>
    Text.dropEndWhile_of_last (by simp [Text.isBlank])
  rw [repair, closeOpenString, if_pos h, htrim, hquote, dropSeparator]
  simp

/-- Outside a string the repair drops a trailing separator and closes what is open. -/
theorem repair_outside (h : n.inString = false) :
    repair text n = dropSeparator (Text.trimEnd text) ++ n.closers := by
  have htwice : Text.trimEnd (Text.trimEnd text) = Text.trimEnd text :=
    Text.dropEndWhile_of_last (Text.getLast?_dropEndWhile _ _)
  rw [repair, closeOpenString, h, if_neg Bool.false_ne_true, htwice]

@[simp] theorem dropSeparator_comma (text : List Char) : dropSeparator (text ++ [',']) = text := by
  simp [dropSeparator]

@[simp] theorem dropSeparator_colon (text : List Char) :
    dropSeparator (text ++ [':']) = text ++ [':'] ++ ['n', 'u', 'l', 'l'] := by
  simp [dropSeparator]

/-- What ends neither in a comma nor in a colon is left as it is. -/
theorem dropSeparator_other {c : Char} (hcomma : c ≠ ',') (hcolon : c ≠ ':') (text : List Char) :
    dropSeparator (text ++ [c]) = text ++ [c] := by
  unfold dropSeparator
  split
  · next h => exact absurd (by simpa using h) hcomma
  · next h => exact absurd (by simpa using h) hcolon
  · rfl

/-! ### Inside a string -/

/-- A string that is closed where it breaks off. -/
theorem closeString_approximates {text : String} {part : StringPart} {role : StringRole}
    (hv : (State.string text part role).MayBecome v) (hpart : part.escaped = false)
    (hw : (State.string text part role).gives? ('"' :: role.closers) = some w) :
    Approximates w v := by
  obtain ⟨s, hstep, hw⟩ := State.gives?_cons_eq_some_iff.1 hw
  have hmove := Move.of_step hstep
  generalize hc : '"' = c at hmove
  cases hmove with
  | blank hbetween => exact hbetween.elim
  | quote =>
    obtain ⟨-, more, hmore⟩ := hv
    cases role with
    | value context =>
      rw [State.closeString, StringRole.closers, gives?_supply_closers] at hw
      cases hw
      exact Context.fill_approximates hmore (by simp [Approximates])
    | key before context => cases hw
  | inside h =>
    -- An escape can be completed behind digits only, and a quote is no digit.
    have hdigit : ∀ code m, hexCode code c ≠ some m := by
      rintro code m hm
      subst hc
      obtain ⟨_, -, hdigit⟩ := Option.bind_eq_some_iff.1 hm
      cases hdigit
    cases h with
    | plain hquote => exact absurd hc.symm hquote
    | backslash | leadBackslash => exact absurd hc (by decide)
    | short | unicode | secondHalf => cases hpart
    | digit =>
      obtain ⟨m, hm⟩ := Option.isSome_iff_exists.1 (State.mayBecome_of_gives hw).1
      exact absurd hm (hdigit _ _)
    | firstHalf h | lastDigit h => exact absurd h (hdigit _ _)

/-- The brackets are inside a string only where the reader is. -/
theorem State.exists_string (h : s.nesting.inString = true) :
    ∃ text part role, s = .string text part role := by
  cases s with
  | string text part role => exact ⟨text, part, role, rfl⟩
  | _ => cases h

/-- Outside strings nothing is escaped. -/
theorem State.inString_of_escaped (h : s.nesting.escaped = true) : s.nesting.inString = true := by
  cases s with
  | string => rfl
  | _ => cases h

/-- Before the backslash of an escape the text stands in the same string. -/
theorem Nesting.before_escape {c : Char} (h : (n.step c).escaped = true)
    (hn : n.escaped = true → n.inString = true) :
    n.inString = true ∧ n.escaped = false ∧ (n.step c).closers = n.closers := by
  cases hin : n.inString with
  | false =>
    have hnot : n.escaped = false := by
      cases he : n.escaped with
      | false => rfl
      | true => rw [hn he] at hin; cases hin
    simp only [Nesting.step, hin, if_neg Bool.false_ne_true] at h
    repeat' split at h
    all_goals rw [hnot] at h; cases h
  | true =>
    cases he : n.escaped with
    | true => simp [Nesting.step, hin, he] at h
    | false =>
      refine ⟨rfl, rfl, ?_⟩
      simp only [Nesting.step, hin, he, if_true, if_neg Bool.false_ne_true]
      repeat' split
      all_goals rfl

/-- Only a quotation mark leads into a string or out of one. -/
theorem Nesting.inString_step {c : Char} (h : c ≠ '"') : (n.step c).inString = n.inString := by
  simp only [Nesting.step, if_neg h]
  repeat' split
  all_goals simp_all

/-! ### The whole repair -/

/-- Outside strings the brackets give the closed value. -/
theorem gives?_append_closers (h : Text.feed State.step .initial text = .ok s)
    (hout : s.nesting.inString = false) :
    State.initial.gives? (text ++ s.nesting.closers) = s.closed? := by
  rw [State.gives?_append h, State.gives?_closers (sound_of_feed h) hout]

/-- A repair inside a string. -/
theorem repair_inside_approximates (hfeed : Text.feed State.step .initial text = .ok s)
    (hv : s.MayBecome v) (htrim : Text.trimEnd text = text) (hin : s.nesting.inString = true)
    (hw : State.initial.gives? (repair text s.nesting) = some w) : Approximates w v := by
  rw [repair_inside hin htrim] at hw
  cases hescaped : s.nesting.escaped with
  | false =>
    rw [hescaped, if_neg Bool.false_ne_true, State.gives?_append hfeed] at hw
    obtain ⟨read, part, role, rfl⟩ := State.exists_string hin
    exact closeString_approximates hv hescaped hw
  | true =>
    rw [hescaped, if_pos rfl] at hw
    -- The backslash is dropped, and the machine before it stands in the same string.
    obtain rfl | ⟨begun, c, rfl⟩ := List.eq_nil_or_concat' text
    · cases hfeed; cases hin
    · obtain ⟨before, hbefore, hstep⟩ := Text.exists_feed_of_concat hfeed
      have hmove := Move.of_step hstep
      have hnesting := hmove.nesting (sound_of_feed hbefore) hv
      obtain ⟨hin', hnot, hclosers⟩ :=
        Nesting.before_escape (hnesting ▸ hescaped) State.inString_of_escaped
      rw [List.dropLast_concat, State.gives?_append hbefore, ← hnesting, hclosers] at hw
      obtain ⟨read, part, role, rfl⟩ := State.exists_string hin'
      exact closeString_approximates (hmove.mayBecome hv) hnot hw

/-- A repair outside strings. -/
theorem repair_outside_approximates (hfeed : Text.feed State.step .initial text = .ok s)
    (hv : s.MayBecome v) (htrim : Text.trimEnd text = text) (hout : s.nesting.inString = false)
    (hw : State.initial.gives? (repair text s.nesting) = some w) : Approximates w v := by
  rw [repair_outside hout, htrim] at hw
  obtain rfl | ⟨begun, c, rfl⟩ := List.eq_nil_or_concat' text
  · cases hfeed; cases hw
  · obtain ⟨before, hbefore, hstep⟩ := Text.exists_feed_of_concat hfeed
    have hmove := Move.of_step hstep
    have hsound := sound_of_feed hbefore
    have hnesting := hmove.nesting hsound hv
    have hbehind : c ≠ '"' → before.nesting.inString = false := fun hc => by
      rw [← hnesting, Nesting.inString_step hc] at hout
      exact hout
    by_cases hcomma : c = ','
    · -- The machine before the comma has the same containers open.
      subst hcomma
      have hsame : before.nesting = s.nesting := by
        rw [← hnesting, Nesting.step_of_plain (hbehind (by decide)) (by unfold Plain; decide)]
      rw [dropSeparator_comma, ← hsame,
        gives?_append_closers hbefore (hbehind (by decide))] at hw
      exact State.closed_approximates hw (hmove.mayBecome hv)
    by_cases hcolon : c = ':'
    · -- The value that must come is `null`, and `null` approximates every value.
      subst hcolon
      obtain ⟨context, rfl⟩ := hmove.behind_colon hsound (hbehind (by decide))
      rw [dropSeparator_colon, List.append_assoc, State.gives?_append hfeed] at hw
      have hnull : (State.value context).gives? (['n', 'u', 'l', 'l'] ++ context.closers) =
          (context.supply .null).gives? context.closers := rfl
      rw [State.nesting, hnull, gives?_supply_closers] at hw
      cases hw
      obtain ⟨x, hx⟩ := hv
      exact Context.fill_approximates hx (by simp [Approximates])
    · rw [dropSeparator_other hcomma hcolon, gives?_append_closers hfeed hout] at hw
      exact State.closed_approximates hw hv

/-- **A repair shows nothing that the whole text does not have.** -/
theorem repair_approximates (hfeed : Text.feed State.step .initial text = .ok s)
    (hv : s.MayBecome v) (htrim : Text.trimEnd text = text)
    (hw : State.initial.gives? (repair text s.nesting) = some w) : Approximates w v := by
  cases h : s.nesting.inString with
  | true => exact repair_inside_approximates hfeed hv htrim h hw
  | false => exact repair_outside_approximates hfeed hv htrim h hw

/-- All but the last character of a text stands in its repair. -/
theorem dropLast_isPrefix_repair (htrim : Text.trimEnd text = text) (n : Nesting) :
    text.dropLast <+: repair text n := by
  cases hin : n.inString with
  | true =>
    rw [repair_inside hin htrim]
    split
    · exact List.prefix_append _ _
    · exact (List.dropLast_prefix text).trans (List.prefix_append _ _)
  | false =>
    rw [repair_outside hin, htrim]
    refine List.IsPrefix.trans ?_ (List.prefix_append _ _)
    unfold dropSeparator
    split
    · exact List.prefix_rfl
    · exact (List.dropLast_prefix text).trans (List.prefix_append _ _)
    · exact List.dropLast_prefix text

/-! ### Where the containers can be closed -/

/-- Where the containers can be closed no separator stands last. -/
theorem dropSeparator_of_closed (hfeed : Text.feed State.step .initial text = .ok s)
    (hv : s.MayBecome v) (hout : s.nesting.inString = false) (ha : s.closed? = some a) :
    dropSeparator text = text := by
  obtain rfl | ⟨begun, c, rfl⟩ := List.eq_nil_or_concat' text
  · rfl
  obtain ⟨before, hbefore, hstep⟩ := Text.exists_feed_of_concat hfeed
  have hmove := Move.of_step hstep
  have hsound := sound_of_feed hbefore
  have hbehind : c ≠ '"' → before.nesting.inString = false := fun hc => by
    rw [← hmove.nesting hsound hv, Nesting.inString_step hc] at hout
    exact hout
  refine dropSeparator_other ?_ ?_ begun
  · rintro rfl
    obtain ⟨-, hnone⟩ := hmove.around_comma hsound (hbehind (by decide))
    rw [hnone] at ha
    cases ha
  · rintro rfl
    obtain ⟨context, rfl⟩ := hmove.behind_colon hsound (hbehind (by decide))
    cases ha

/-- **Where the containers can be closed, the repair closes them.** -/
theorem gives?_repair (hfeed : Text.feed State.step .initial text = .ok s) (hv : s.MayBecome v)
    (hout : s.nesting.inString = false) (ha : s.closed? = some a) :
    State.initial.gives? (repair text s.nesting) = some a := by
  -- The blanks at the end are dropped, and the machine is before them where it is behind them.
  obtain ⟨blanks, hblanks, hall⟩ := Text.exists_dropEndWhile_append Text.isBlank text
  rw [hblanks] at hfeed
  obtain ⟨before, hbefore, hrest⟩ := Text.exists_feed_of_append hfeed
  obtain ⟨hclosed, hnesting⟩ := State.blanks_outside hrest hall (sound_of_feed hbefore) hout
  have hvbefore := State.mayBecome_of_feed hrest hv
  rw [hnesting] at hout ⊢
  rw [hclosed] at ha
  rw [repair_outside hout, Text.trimEnd, dropSeparator_of_closed hbefore hvbefore hout ha,
    gives?_append_closers hbefore hout, ha]

end AgentSurface.Json
