import AgentSurface.Json.Reader

/-!
# Json — the moves of the reader

`Move s c s'` lists what a character can do to the machine, one constructor for each kind of
progress.  A character behind a numeral moves the machine as it does behind the number.

* `Move.of_step`: every step is a move, so that what holds of all moves holds of the reader.
* `parse?_eq`: reading a text is running the machine and finishing it.
-/

namespace AgentSurface.Json

/-! ### Moves -/

/-- The words of JSON, and what they stand for. -/
inductive Word : List Char → Json → Prop where
  | yes : Word ['t', 'r', 'u', 'e'] (.bool true)
  | no : Word ['f', 'a', 'l', 's', 'e'] (.bool false)
  | nothing : Word ['n', 'u', 'l', 'l'] .null

/-- The first character of a value, and the state behind it. -/
inductive Start (context : Context) : Char → State → Prop where
  | string : Start context '"' (.string "" .plain (.value context))
  | list (room : context.length < maxDepth) : Start context '[' (.listStart context)
  | object (room : context.length < maxDepth) : Start context '{' (.objectStart context)
  | word {c : Char} {rest : List Char} {v : Json} (h : Word (c :: rest) v) :
      Start context c (.literal rest v context)
  | number {c : Char} {numeral : Numeral} (h : Numeral.start? c = some numeral) :
      Start context c (.number numeral context)

/-- The value of the digits of a `\u` escape with one more, if all are digits. -/
def hexCode (code : Option Nat) (c : Char) : Option Nat :=
  code.bind fun n => (Text.hexDigit? c).map (n * 16 + ·)

/-- A character inside a string: what is read of the string, and the place in it, before and behind
the character. -/
inductive Inside : String → StringPart → Char → String → StringPart → Prop where
  | plain {text : String} {c : Char} (hquote : c ≠ '"') (hslash : c ≠ '\\') :
      Inside text .plain c (text.push c) .plain
  | backslash {text : String} : Inside text .plain '\\' text .backslash
  | short {text : String} {c meant : Char} (h : State.shortEscape? c = some meant) :
      Inside text .backslash c (text.push meant) .plain
  | unicode {text : String} : Inside text .backslash 'u' text (.hex 0 (some 0) none)
  | digit {text : String} {taken : Nat} {code lead : Option Nat} {c : Char} :
      Inside text (.hex taken code lead) c text (.hex (taken + c.utf8Size) (hexCode code c) lead)
  | firstHalf {text : String} {taken n : Nat} {code : Option Nat} {c : Char}
      (h : hexCode code c = some n) : Inside text (.hex taken code none) c text (.lead n)
  | lastDigit {text : String} {taken n : Nat} {code lead : Option Nat} {c meant : Char}
      (h : hexCode code c = some n) :
      Inside text (.hex taken code lead) c (text.push meant) .plain
  | leadBackslash {text : String} {code : Nat} :
      Inside text (.lead code) '\\' text (.leadBackslash code)
  | secondHalf {text : String} {code : Nat} :
      Inside text (.leadBackslash code) 'u' text (.hex 0 (some 0) (some code))

/-- Between the parts of a value, where blanks may stand. -/
def State.Between : State → Prop
  | .literal _ _ _ | .number _ _ | .string _ _ _ => False
  | _ => True

/-- What a character can do to the machine. -/
inductive Move : State → Char → State → Prop where
  | blank {s : State} {c : Char} (hs : s.Between) (h : isSpace c = true) : Move s c s
  | start {context : Context} {c : Char} {s : State} (h : Start context c s) :
      Move (.value context) c s
  | firstItem {context : Context} {c : Char} {s : State} (h : Start (.item [] :: context) c s) :
      Move (.listStart context) c s
  | nextItem {before : List Json} {context : Context} {c : Char} {s : State}
      (h : Start (.item before :: context) c s) : Move (.listNext before context) c s
  | emptyList {context : Context} :
      Move (.listStart context) ']' (context.supply (.array []))
  | listComma {before : List Json} {context : Context} :
      Move (.listMore before context) ',' (.listNext before context)
  | closeList {before : List Json} {context : Context} :
      Move (.listMore before context) ']' (context.supply (.array before.reverse))
  | firstKey {context : Context} :
      Move (.objectStart context) '"' (.string "" .plain (.key [] context))
  | nextKey {before : Fields} {context : Context} :
      Move (.objectNext before context) '"' (.string "" .plain (.key before context))
  | emptyObject {context : Context} :
      Move (.objectStart context) '}' (context.supply (.object []))
  | colon {before : Fields} {key : String} {context : Context} :
      Move (.colon before key context) ':' (.value (.member before key :: context))
  | objectComma {before : Fields} {context : Context} :
      Move (.objectMore before context) ',' (.objectNext before context)
  | closeObject {before : Fields} {context : Context} :
      Move (.objectMore before context) '}' (context.supply (.object before.reverse))
  | letter {c next : Char} {rest : List Char} {v : Json} {context : Context} :
      Move (.literal (c :: next :: rest) v context) c (.literal (next :: rest) v context)
  | lastLetter {c : Char} {v : Json} {context : Context} :
      Move (.literal [c] v context) c (context.supply v)
  | digit {numeral more : Numeral} {context : Context} {c : Char}
      (h : numeral.step c = .more more) : Move (.number numeral context) c (.number more context)
  | numberEnd {numeral : Numeral} {n : Number} {context : Context} {c : Char} {s : State}
      (h : numeral.step c = .ended) (hn : numeral.value? = some n)
      (hs : Move (context.supply (.number n)) c s) : Move (.number numeral context) c s
  | quote {text : String} {role : StringRole} :
      Move (.string text .plain role) '"' (State.closeString text role)
  | inside {text text' : String} {part part' : StringPart} {role : StringRole} {c : Char}
      (h : Inside text part c text' part') :
      Move (.string text part role) c (.string text' part' role)

/-! ### Steps are moves -/

theorem State.between_supply (v : Json) (context : Context) : (context.supply v).Between := by
  cases context with
  | nil => trivial
  | cons frame rest => cases frame <;> trivial

/-- A container is opened only where there is room for one more. -/
theorem openContainer_eq_ok {context : Context} {next s : State}
    (h : State.openContainer context next = .ok s) : context.length < maxDepth ∧ s = next := by
  unfold State.openContainer at h
  split at h
  · next room => cases h; exact ⟨room, rfl⟩
  · cases h

/-- The ways in which a value begins are those of `Start`. -/
theorem Start.of_startValue {context : Context} {c : Char} {s : State}
    (h : State.startValue context c = .ok s) : Start context c s := by
  unfold State.startValue at h
  split at h
  · next hc => subst hc; cases h; exact .string
  split at h
  · next hc => subst hc; obtain ⟨room, rfl⟩ := openContainer_eq_ok h; exact .list room
  split at h
  · next hc => subst hc; obtain ⟨room, rfl⟩ := openContainer_eq_ok h; exact .object room
  split at h
  · next hc => subst hc; cases h; exact .word .yes
  split at h
  · next hc => subst hc; cases h; exact .word .no
  split at h
  · next hc => subst hc; cases h; exact .word .nothing
  split at h
  · next numeral hn => cases h; exact .number hn
  · cases h

/-- A digit of an escape stays inside of the string. -/
theorem Inside.of_hexStep {text : String} {role : StringRole} {taken : Nat} {code lead : Option Nat}
    {c : Char} {s : State} (h : State.hexStep text role taken code lead c = .ok s) :
    ∃ text' part', s = .string text' part' role ∧
      Inside text (.hex taken code lead) c text' part' := by
  change (if taken + c.utf8Size < 4 then
      .ok (.string text (.hex (taken + c.utf8Size) (hexCode code c) lead) role)
    else State.closeHex text role (hexCode code c) lead (4 - taken)) = .ok s at h
  split at h
  · cases h; exact ⟨_, _, rfl, .digit⟩
  · unfold State.closeHex at h
    split at h
    · cases h
    · next n hn =>
      split at h
      · cases h
      split at h
      · cases h; exact ⟨_, _, rfl, .firstHalf hn⟩
      · cases h; exact ⟨_, _, rfl, .lastDigit hn⟩
    · next n half hn =>
      split at h
      · cases h; exact ⟨_, _, rfl, .lastDigit hn⟩
      · cases h

/-- Within a string. -/
theorem Move.of_stringStep {text : String} {part : StringPart} {role : StringRole} {c : Char}
    {s : State} (h : State.stringStep text part role c = .ok s) :
    Move (.string text part role) c s := by
  cases part with
  | plain =>
    simp only [State.stringStep] at h
    split at h
    · next hc => subst hc; cases h; exact .quote
    split at h
    · next hc => subst hc; cases h; exact .inside .backslash
    split at h
    · cases h
    · next hquote hslash _ => cases h; exact .inside (.plain hquote hslash)
  | backslash =>
    simp only [State.stringStep] at h
    split at h
    · next hc => subst hc; cases h; exact .inside .unicode
    split at h
    · next meant hmeant => cases h; exact .inside (.short hmeant)
    · cases h
  | hex taken code lead =>
    obtain ⟨text', part', rfl, hinside⟩ := Inside.of_hexStep h
    exact .inside hinside
  | lead code =>
    simp only [State.stringStep] at h
    split at h
    · next hc => subst hc; cases h; exact .inside .leadBackslash
    · cases h
  | leadBackslash code =>
    simp only [State.stringStep] at h
    split at h
    · next hc => subst hc; cases h; exact .inside .secondHalf
    · cases h

/-- Behind an element. -/
theorem Move.of_afterItem {before : List Json} {context : Context} {c : Char} {s : State}
    (h : State.afterItem before context c = .ok s) : Move (.listMore before context) c s := by
  unfold State.afterItem at h
  split at h
  · next hc => cases h; exact .blank trivial hc
  split at h
  · next hc => subst hc; cases h; exact .listComma
  split at h
  · next hc => subst hc; cases h; exact .closeList
  · cases h

/-- Behind a member. -/
theorem Move.of_afterMember {before : Fields} {context : Context} {c : Char} {s : State}
    (h : State.afterMember before context c = .ok s) : Move (.objectMore before context) c s := by
  unfold State.afterMember at h
  split at h
  · next hc => cases h; exact .blank trivial hc
  split at h
  · next hc => subst hc; cases h; exact .objectComma
  split at h
  · next hc => subst hc; cases h; exact .closeObject
  · cases h

/-- Behind the whole value there is room for blanks only. -/
theorem Move.of_afterAll {v : Json} {c : Char} {s : State} (h : State.afterAll v c = .ok s) :
    Move (.done v) c s := by
  unfold State.afterAll at h
  split at h
  · next hc => cases h; exact .blank trivial hc
  · cases h

/-- Within a number, whose end is told by the next character. -/
theorem Move.of_numberStep {numeral : Numeral} {context : Context} {c : Char} {s : State}
    (h : State.numberStep numeral context c = .ok s) : Move (.number numeral context) c s := by
  unfold State.numberStep at h
  split at h
  · next more hmore => cases h; exact .digit hmore
  · next hended =>
    unfold State.afterNumber at h
    split at h
    · cases h
    · next n hn =>
      refine .numberEnd hended hn ?_
      split at h
      · exact .of_afterAll h
      · exact .of_afterItem h
      · exact .of_afterMember h
  · cases h

/-- Within a word. -/
theorem Move.of_literalStep {rest : List Char} {v : Json} {context : Context} {c : Char} {s : State}
    (h : State.literalStep rest v context c = .ok s) : Move (.literal rest v context) c s := by
  unfold State.literalStep at h
  split at h
  · cases h
  · split at h
    · next hc => subst hc; cases h; exact .lastLetter
    · cases h
  · next hne =>
    split at h
    · next hc =>
      subst hc; cases h
      cases ‹List Char› with
      | nil => exact absurd rfl hne
      | cons next rest => exact .letter
    · cases h

/-- **Every step is a move.** -/
theorem Move.of_step {s s' : State} {c : Char} (h : s.step c = .ok s') : Move s c s' := by
  cases s with
  | value context =>
    simp only [State.step] at h
    split at h
    · next hc => cases h; exact .blank trivial hc
    · exact .start (.of_startValue h)
  | listStart context =>
    simp only [State.step] at h
    split at h
    · next hc => cases h; exact .blank trivial hc
    split at h
    · next hc => subst hc; cases h; exact .emptyList
    · exact .firstItem (.of_startValue h)
  | listNext before context =>
    simp only [State.step] at h
    split at h
    · next hc => cases h; exact .blank trivial hc
    split at h
    · cases h
    · exact .nextItem (.of_startValue h)
  | listMore before context => exact .of_afterItem h
  | objectStart context =>
    simp only [State.step] at h
    split at h
    · next hc => cases h; exact .blank trivial hc
    split at h
    · next hc => subst hc; cases h; exact .emptyObject
    split at h
    · next hc => subst hc; cases h; exact .firstKey
    · cases h
  | objectNext before context =>
    simp only [State.step] at h
    split at h
    · next hc => cases h; exact .blank trivial hc
    split at h
    · next hc => subst hc; cases h; exact .nextKey
    split at h <;> cases h
  | colon before key context =>
    simp only [State.step] at h
    split at h
    · next hc => cases h; exact .blank trivial hc
    split at h
    · next hc => subst hc; cases h; exact .colon
    · cases h
  | objectMore before context => exact .of_afterMember h
  | literal rest v context => exact .of_literalStep h
  | number numeral context => exact .of_numberStep h
  | string text part role => exact .of_stringStep h
  | done v => exact .of_afterAll h

/-! ### Reading a text -/

/-- The value of a text that is read from here to its end. -/
def State.gives? (s : State) (text : List Char) : Option Json :=
  (Text.feed State.step s text).toOption.bind fun s' => s'.finish.toOption

@[simp] theorem State.gives?_nil (s : State) : s.gives? [] = s.finish.toOption := rfl

/-- What a text gives is what its rest gives behind the first character. -/
theorem State.gives?_cons (s : State) (c : Char) (rest : List Char) :
    s.gives? (c :: rest) = (s.step c).toOption.bind fun s' => s'.gives? rest := by
  rw [State.gives?, Text.feed]
  cases s.step c with
  | ok next => rfl
  | error refusal => rfl

/-- A text gives a value if its first character is taken and the rest gives it. -/
theorem State.gives?_cons_eq_some_iff {s : State} {c : Char} {rest : List Char} {v : Json} :
    s.gives? (c :: rest) = some v ↔ ∃ s', s.step c = .ok s' ∧ s'.gives? rest = some v := by
  rw [State.gives?_cons]
  cases s.step c with
  | ok next => simp [Except.toOption]
  | error refusal => simp [Except.toOption]

/-- What was fed before only counts by the state it has led to. -/
theorem State.gives?_append {s s' : State} {xs : List Char}
    (h : Text.feed State.step s xs = .ok s') (ys : List Char) :
    s.gives? (xs ++ ys) = s'.gives? ys := by
  rw [State.gives?, Text.feed_append h]
  rfl

/-- A text gives a value if it is taken as a whole and may end there. -/
theorem State.gives?_eq_some_iff {s : State} {text : List Char} {v : Json} :
    s.gives? text = some v ↔ ∃ s', Text.feed State.step s text = .ok s' ∧ s'.finish = .ok v := by
  rw [State.gives?]
  cases Text.feed State.step s text with
  | error stop => simp [Except.toOption]
  | ok s' => cases hs' : s'.finish <;> simp [Except.toOption, hs']

/-- **A text is read as a value if the machine gives that value for it.** -/
theorem read_eq_ok_iff {text : List Char} {v : Json} :
    read text = .ok v ↔ State.initial.gives? text = some v := by
  rw [read, State.gives?]
  cases Text.feed State.step State.initial text with
  | error stop => simp [Except.toOption]
  | ok s => cases hs : s.finish <;> simp [Except.toOption, hs]

/-- Reading a text is running the machine over it and settling what it gives. -/
theorem parse?_eq (text : List Char) : parse? text = (State.initial.gives? text).map settled := by
  unfold parse? parse
  cases h : read text with
  | ok v => rw [read_eq_ok_iff.1 h]; rfl
  | error fault =>
    cases hg : State.initial.gives? text with
    | none => rfl
    | some v => rw [read_eq_ok_iff.2 hg] at h; cases h

end AgentSurface.Json
