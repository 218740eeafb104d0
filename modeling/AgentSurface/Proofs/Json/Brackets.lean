import AgentSurface.Json.Preview
import AgentSurface.Proofs.Json.Atoms
import AgentSurface.Proofs.Json.Prospects

/-!
# Json — the scan follows the reader

The scan of a preview knows of a text only whether it stands in a string and which brackets are
open.  `State.nesting` is what the reader knows of that, and the scan agrees with it in every text
that can be completed.

* `State.nesting_of_feed`: behind such a text the scan and the reader agree.
* `State.gives?_closers`: closing what is open gives the closed value, or no value.
* `Move.around_comma`, `Move.behind_colon`, `Move.blank_outside`: what stands before and behind a
  comma, a colon and a blank outside strings.
-/

namespace AgentSurface.Json

/-! ### What is open -/

/-- The brackets that close the containers around a place, innermost first. -/
def Context.closers : Context → List Char
  | [] => []
  | .item _ :: context => ']' :: closers context
  | .member _ _ :: context => '}' :: closers context

/-- The brackets open around a string, for a key also those of its own object. -/
def StringRole.closers : StringRole → List Char
  | .value context => context.closers
  | .key _ context => '}' :: context.closers

/-- The next character is escaped. -/
def StringPart.escaped : StringPart → Bool
  | .backslash | .leadBackslash _ => true
  | _ => false

/-- What the reader knows to be open. -/
def State.nesting : State → Nesting
  | .value context | .literal _ _ context | .number _ context => { closers := context.closers }
  | .listStart context | .listNext _ context | .listMore _ context =>
    { closers := ']' :: context.closers }
  | .objectStart context | .objectNext _ context | .colon _ _ context | .objectMore _ context =>
    { closers := '}' :: context.closers }
  | .string _ part role => ⟨true, part.escaped, role.closers⟩
  | .done _ => {}

/-- Supplying a value leaves open what its context has open. -/
theorem State.nesting_supply (context : Context) (v : Json) :
    (context.supply v).nesting = { closers := context.closers } := by
  cases context with
  | nil => rfl
  | cons frame rest => cases frame <;> rfl

/-- A string that ends leaves open what was open around it. -/
theorem State.nesting_closeString (text : String) (role : StringRole) :
    (closeString text role).nesting = { closers := role.closers } := by
  cases role with
  | value context => exact nesting_supply _ _
  | key before context => rfl

/-! ### The scan -/

/-- A character outside strings that opens and closes nothing. -/
def Plain (c : Char) : Prop := c ∉ ['"', '{', '[', '}', ']']

theorem plain_of_mem_atomChars : ∀ c ∈ atomChars, Plain c := by
  simp [atomChars, Plain]

theorem plain_of_isSpace {c : Char} (h : isSpace c = true) : Plain c := by
  intro hmem
  have hnone : ∀ d ∈ ['"', '{', '[', '}', ']'], isSpace d = false := by simp [isSpace]
  rw [hnone c hmem] at h
  cases h

/-- A plain character outside strings changes nothing of the nesting. -/
theorem Nesting.step_of_plain {n : Nesting} {c : Char} (hn : n.inString = false) (hc : Plain c) :
    n.step c = n := by
  simp only [Plain, List.mem_cons, List.not_mem_nil, or_false, not_or] at hc
  simp [Nesting.step, hn, hc]

theorem Nesting.step_inside {c : Char} {closers : List Char} (hquote : c ≠ '"')
    (hslash : c ≠ '\\') : Nesting.step ⟨true, false, closers⟩ c = ⟨true, false, closers⟩ := by
  simp [Nesting.step, hquote, hslash]

/-- The scan keeps the nesting of the whole text read so far. -/
theorem nesting_scan (text : List Char) : (scan text).nesting = text.foldl Nesting.step {} := by
  have hrun : ∀ s : Scan, (text.foldl Scan.step s).nesting = text.foldl Nesting.step s.nesting := by
    intro s
    induction text generalizing s with
    | nil => rfl
    | cons c rest ih => exact ih (s.step c)
  exact hrun {}

/-! ### The scan follows the reader -/

/-- The first character of a value moves the brackets as it moves the reader. -/
theorem Start.nesting {context : Context} {c : Char} {s : State} (h : Start context c s) :
    Nesting.step { closers := context.closers } c = s.nesting := by
  cases h with
  | string | list | object => rfl
  | word h =>
    exact Nesting.step_of_plain rfl
      (plain_of_mem_atomChars c (h.mem_atomChars c List.mem_cons_self))
  | number h =>
    exact Nesting.step_of_plain rfl (plain_of_mem_atomChars c (Numeral.mem_atomChars_of_start? h))

/-- A digit of an escape neither ends the string nor escapes anything. -/
theorem step_of_hexCode {code : Option Nat} {c : Char} {n : Nat} {closers : List Char}
    (h : hexCode code c = some n) :
    Nesting.step ⟨true, false, closers⟩ c = ⟨true, false, closers⟩ := by
  obtain ⟨m, -, hm⟩ := Option.bind_eq_some_iff.1 h
  obtain ⟨d, hd, -⟩ := Option.map_eq_some_iff.1 hm
  refine Nesting.step_inside ?_ ?_
  · rintro rfl; cases hd
  · rintro rfl; cases hd

/-- A character inside a string moves the brackets as it moves the reader. -/
theorem Inside.nesting {text text' : String} {part part' : StringPart} {c : Char}
    {closers : List Char} (h : Inside text part c text' part') (ha : part'.Alive) :
    Nesting.step ⟨true, part.escaped, closers⟩ c = ⟨true, part'.escaped, closers⟩ := by
  cases h with
  | plain hquote hslash => exact Nesting.step_inside hquote hslash
  | backslash | short | unicode | leadBackslash | secondHalf => rfl
  | digit => obtain ⟨n, hn⟩ := Option.isSome_iff_exists.1 ha; exact step_of_hexCode hn
  | firstHalf h | lastDigit h => exact step_of_hexCode h

/-- A character that the reader takes moves the scan to what the reader knows. -/
theorem Move.nesting {s s' : State} {c : Char} {v : Json} (h : Move s c s') (hs : s.Sound)
    (hv : s'.MayBecome v) : s.nesting.step c = s'.nesting := by
  induction h with
  | @blank s c hbetween hc =>
    refine Nesting.step_of_plain ?_ (plain_of_isSpace hc)
    cases s with
    | literal | number | string => exact hbetween.elim
    | _ => rfl
  | start h | firstItem h | nextItem h => exact h.nesting
  | emptyList | closeList | emptyObject | closeObject =>
    rw [State.nesting_supply]
    rfl
  | listComma | objectComma | firstKey | nextKey | colon => rfl
  | letter =>
    exact Nesting.step_of_plain rfl (plain_of_mem_atomChars _ (hs _ List.mem_cons_self))
  | lastLetter =>
    rw [State.nesting_supply]
    exact Nesting.step_of_plain rfl (plain_of_mem_atomChars _ (hs _ List.mem_cons_self))
  | digit h =>
    exact Nesting.step_of_plain rfl (plain_of_mem_atomChars _ (Numeral.mem_atomChars_of_step h))
  -- A numeral and its number have the same containers around them.
  | numberEnd _ _ _ ih =>
    rw [← ih (State.sound_supply _ _) hv, State.nesting_supply]
    rfl
  | quote =>
    rw [State.nesting_closeString]
    rfl
  | inside h => exact h.nesting hv.1

/-- **Behind a text that can be completed, the scan and the reader agree.** -/
theorem State.nesting_of_feed {s s' : State} {text : List Char} {v : Json}
    (h : Text.feed State.step s text = .ok s') (hs : s.Sound) (hv : s'.MayBecome v) :
    text.foldl Nesting.step s.nesting = s'.nesting := by
  induction text generalizing s with
  | nil => cases h; rfl
  | cons c rest ih =>
    obtain ⟨next, hstep, hrest⟩ := Text.feed_cons_eq_ok_iff.1 h
    have hmove := Move.of_step hstep
    rw [List.foldl_cons, hmove.nesting hs (State.mayBecome_of_feed hrest hv)]
    exact ih hrest (hmove.sound hs)

/-- While the text may still become a value, the scan's nesting is the reader's. -/
theorem nesting_scan_of_feed {s : State} {text : List Char} {v : Json}
    (h : Text.feed State.step .initial text = .ok s) (hv : s.MayBecome v) :
    (scan text).nesting = s.nesting := by
  rw [nesting_scan]
  exact State.nesting_of_feed h trivial hv

/-! ### Closing what is open -/

/-- Behind a value the brackets close the containers around it. -/
theorem gives?_supply_closers (context : Context) (x : Json) :
    (context.supply x).gives? context.closers = some (context.fill x) := by
  induction context generalizing x with
  | nil => rfl
  | cons frame context ih =>
    cases frame with
    | item before => exact ih (.array (x :: before).reverse)
    | member before key => exact ih (.object ((key, x) :: before).reverse)

/-- A machine that neither ends here nor takes a bracket gives no value. -/
theorem gives?_closers_eq_none {s : State} {context : Context} (hend : s.finish.toOption = none)
    (hlist : (s.step ']').toOption = none) (hobject : (s.step '}').toOption = none) :
    s.gives? context.closers = none := by
  cases context with
  | nil => exact hend
  | cons frame context =>
    cases frame with
    | item before => rw [Context.closers, State.gives?_cons, hlist]; rfl
    | member before key => rw [Context.closers, State.gives?_cons, hobject]; rfl

/-- No bracket goes on with a word. -/
theorem gives?_literal {rest : List Char} {v : Json} {context : Context}
    (hs : ∀ c ∈ rest, c ∈ atomChars) :
    (State.literal rest v context).gives? context.closers = none := by
  have hrefused : ∀ c, c ∉ atomChars → ((State.literal rest v context).step c).toOption = none := by
    intro c hc
    have hne : ∀ d ∈ rest, c ≠ d := fun d hd heq => hc (heq ▸ hs d hd)
    show (State.literalStep rest v context c).toOption = none
    match rest, hne with
    | [], _ => rfl
    | [last], hne =>
      rw [State.literalStep, if_neg (hne last List.mem_cons_self)]
      rfl
    | next :: _ :: _, hne =>
      rw [State.literalStep, if_neg (hne next List.mem_cons_self)]
      · rfl
      · simp
  exact gives?_closers_eq_none rfl (hrefused _ (by decide)) (hrefused _ (by decide))

/-- A bracket behind a numeral that has a number does what it does behind the number. -/
theorem gives?_number {numeral : Numeral} {context : Context} {n : Number}
    (hcomplete : numeral.complete = true) (hn : numeral.value? = some n) :
    (State.number numeral context).gives? context.closers = some (context.fill (.number n)) := by
  rw [← gives?_supply_closers]
  have hstep : ∀ c, c ∉ atomChars →
      (State.number numeral context).step c = (context.supply (.number n)).step c := by
    intro c hc
    show State.numberStep numeral context c = _
    rw [State.numberStep, Numeral.step_of_not_mem hc, if_pos hcomplete]
    show State.afterNumber numeral context c = _
    rw [State.afterNumber, hn]
    cases context with
    | nil => rfl
    | cons frame context => cases frame <;> rfl
  cases context with
  | nil => simp [Context.closers, State.finish, hcomplete, hn, Context.supply]
  | cons frame context =>
    cases frame with
    | item before =>
      rw [Context.closers, State.gives?_cons, State.gives?_cons, hstep ']' (by decide)]
    | member before key =>
      rw [Context.closers, State.gives?_cons, State.gives?_cons, hstep '}' (by decide)]

/-- A numeral that is not complete or too large is refused at a bracket. -/
theorem gives?_number_eq_none {numeral : Numeral} {context : Context}
    (h : numeral.complete = true → numeral.value? = none) :
    (State.number numeral context).gives? context.closers = none := by
  have hrefused : ∀ c, c ∉ atomChars →
      ((State.number numeral context).step c).toOption = none := by
    intro c hc
    show (State.numberStep numeral context c).toOption = none
    rw [State.numberStep, Numeral.step_of_not_mem hc]
    cases hcomplete : numeral.complete with
    | false => rfl
    | true =>
      show (State.afterNumber numeral context c).toOption = none
      rw [State.afterNumber, h hcomplete]
      rfl
  refine gives?_closers_eq_none ?_ (hrefused _ (by decide)) (hrefused _ (by decide))
  cases hcomplete : numeral.complete with
  | false => simp [State.finish, hcomplete, Except.toOption]
  | true => simp [State.finish, hcomplete, h hcomplete, Except.toOption]

/-- **Closing what is open gives the closed value, or no value.** -/
theorem State.gives?_closers {s : State} (hs : s.Sound) (hout : s.nesting.inString = false) :
    s.gives? s.nesting.closers = s.closed? := by
  cases s with
  | value context => exact gives?_closers_eq_none rfl rfl rfl
  | listStart context => exact gives?_supply_closers context (.array [])
  | listNext before context => rfl
  | listMore before context => exact gives?_supply_closers context (.array before.reverse)
  | objectStart context => exact gives?_supply_closers context (.object [])
  | objectNext before context => rfl
  | colon before key context => rfl
  | objectMore before context => exact gives?_supply_closers context (.object before.reverse)
  | literal rest v context => exact gives?_literal hs
  | number numeral context =>
    cases hcomplete : numeral.complete with
    | false =>
      rw [closed?, hcomplete, if_neg Bool.false_ne_true]
      exact gives?_number_eq_none fun h => by rw [hcomplete] at h; cases h
    | true =>
      rw [closed?, if_pos hcomplete]
      cases hn : numeral.value? with
      | some n => exact gives?_number hcomplete hn
      | none => exact gives?_number_eq_none fun _ => hn
  | string text part role => cases hout
  | done v => rfl

/-! ### Separators and blanks outside strings -/

/-- A character of no word and no numeral is taken between the parts of a value: a numeral before it
ends first, and the number is in its place then. -/
theorem Move.exists_between {s s' : State} {c : Char} (h : Move s c s') (hc : c ∉ atomChars)
    (hs : s.Sound) (hout : s.nesting.inString = false) :
    ∃ t : State, t.Between ∧ Move t c s' ∧ t.closed? = s.closed? ∧ t.nesting = s.nesting := by
  by_cases hbetween : s.Between
  · exact ⟨s, hbetween, h, rfl, rfl⟩
  cases h with
  | blank hs => exact absurd hs hbetween
  | letter | lastLetter => exact absurd (hs _ List.mem_cons_self) hc
  | digit h => exact absurd (Numeral.mem_atomChars_of_step h) hc
  | @numberEnd numeral n context c s' h hn hmove =>
    refine ⟨context.supply (.number n), State.between_supply _ _, hmove, ?_,
      State.nesting_supply _ _⟩
    rw [State.closed?_supply, State.closed?, if_pos (Numeral.complete_of_step h), hn]
    rfl
  | quote | inside => cases hout
  | _ => exact absurd trivial hbetween

/-- Before a comma outside strings the containers can be closed, and behind it they can not. -/
theorem Move.around_comma {s s' : State} (h : Move s ',' s') (hs : s.Sound)
    (hout : s.nesting.inString = false) : (∃ a, s.closed? = some a) ∧ s'.closed? = none := by
  obtain ⟨t, hbetween, hmove, hclosed, -⟩ := h.exists_between (by decide) hs hout
  rw [← hclosed]
  generalize hc : ',' = c at hmove
  cases hmove with
  | blank _ hspace => subst hc; cases hspace
  | start h | firstItem h | nextItem h => subst hc; exact absurd h.mem (by decide)
  | listComma | objectComma => exact ⟨⟨_, rfl⟩, rfl⟩
  | letter | lastLetter | digit | numberEnd | quote | inside => exact hbetween.elim
  | _ => exact absurd hc (by decide)

/-- Behind a colon outside strings a value must come. -/
theorem Move.behind_colon {s s' : State} (h : Move s ':' s') (hs : s.Sound)
    (hout : s.nesting.inString = false) : ∃ context, s' = .value context := by
  obtain ⟨t, hbetween, hmove, -⟩ := h.exists_between (by decide) hs hout
  generalize hc : ':' = c at hmove
  cases hmove with
  | blank _ hspace => subst hc; cases hspace
  | start h | firstItem h | nextItem h => subst hc; exact absurd h.mem (by decide)
  | colon => exact ⟨_, rfl⟩
  | letter | lastLetter | digit | numberEnd | quote | inside => exact hbetween.elim
  | _ => exact absurd hc (by decide)

/-- A bracket outside strings closes one of its kind. -/
theorem Move.closing {s s' : State} {c : Char} (h : Move s c s') (hc : c = ']' ∨ c = '}')
    (hs : s.Sound) (hout : s.nesting.inString = false) :
    ∃ closers, s.nesting.closers = c :: closers := by
  have hatom : c ∉ atomChars := by obtain rfl | rfl := hc <;> decide
  obtain ⟨t, hbetween, hmove, -, hnesting⟩ := h.exists_between hatom hs hout
  rw [← hnesting]
  cases hmove with
  | blank _ hspace => obtain rfl | rfl := hc <;> cases hspace
  | start h | firstItem h | nextItem h =>
    obtain rfl | rfl := hc <;> exact absurd h.mem (by decide)
  | emptyList | closeList | emptyObject | closeObject => exact ⟨_, rfl⟩
  | letter | lastLetter | digit | numberEnd | quote | inside => exact hbetween.elim
  | _ => exact absurd hc (by decide)

theorem not_isBlank_of_mem : ∀ c ∈ '"' :: '[' :: '{' :: atomChars, Text.isBlank c = false := by
  simp [atomChars, Text.isBlank]

/-- A blank outside strings leaves all as it was. -/
theorem Move.blank_outside {s s' : State} {c : Char} (h : Move s c s')
    (hblank : Text.isBlank c = true) (hs : s.Sound) (hout : s'.nesting.inString = false) :
    s'.closed? = s.closed? ∧ s'.nesting = s.nesting := by
  -- A blank ends no string, so the machine is outside strings before it as well.
  have hout' : s.nesting.inString = false := by
    cases s with
    | string =>
      cases h with
      | blank hbetween => exact hbetween.elim
      | quote => exact absurd hblank (by decide)
      | inside => cases hout
    | _ => rfl
  have hbegin : c ∉ '"' :: '[' :: '{' :: atomChars := fun hmem => by
    rw [not_isBlank_of_mem c hmem] at hblank
    cases hblank
  have hatom : c ∉ atomChars := fun hmem => hbegin (by simp only [List.mem_cons, hmem, or_true])
  obtain ⟨t, hbetween, hmove, hclosed, hnesting⟩ := h.exists_between hatom hs hout'
  rw [← hclosed, ← hnesting]
  cases hmove with
  | blank => exact ⟨rfl, rfl⟩
  | start h | firstItem h | nextItem h => exact absurd h.mem hbegin
  | letter | lastLetter | digit | numberEnd | quote | inside => exact hbetween.elim
  | _ => exact absurd hblank (by decide)

/-- Blanks outside strings leave all as it was. -/
theorem State.blanks_outside {s s' : State} {blanks : List Char}
    (h : Text.feed State.step s blanks = .ok s') (hblank : ∀ c ∈ blanks, Text.isBlank c = true)
    (hs : s.Sound) (hout : s'.nesting.inString = false) :
    s'.closed? = s.closed? ∧ s'.nesting = s.nesting := by
  induction blanks generalizing s with
  | nil => cases h; exact ⟨rfl, rfl⟩
  | cons c rest ih =>
    obtain ⟨next, hstep, hrest⟩ := Text.feed_cons_eq_ok_iff.1 h
    have hmove := Move.of_step hstep
    obtain ⟨hclosed, hnesting⟩ := ih hrest (fun d hd => hblank d (by simp [hd])) (hmove.sound hs)
    obtain ⟨hclosed', hnesting'⟩ :=
      hmove.blank_outside (hblank c (by simp)) hs (by rw [← hnesting, hout])
    exact ⟨hclosed.trans hclosed', hnesting.trans hnesting'⟩

/-- Before its value the machine takes blanks and does not move. -/
theorem State.blanks_before {s : State} {blanks : List Char}
    (h : Text.feed State.step .initial blanks = .ok s)
    (hblank : ∀ c ∈ blanks, Text.isBlank c = true) : s = .initial := by
  induction blanks with
  | nil => cases h; rfl
  | cons c rest ih =>
    obtain ⟨next, hstep, hrest⟩ := Text.feed_cons_eq_ok_iff.1 h
    cases Move.of_step hstep with
    | blank => exact ih hrest fun d hd => hblank d (by simp [hd])
    | start hstart =>
      have hc := hblank c List.mem_cons_self
      rw [not_isBlank_of_mem c hstart.mem] at hc
      cases hc

end AgentSurface.Json
