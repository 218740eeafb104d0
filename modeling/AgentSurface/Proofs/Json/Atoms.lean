import AgentSurface.Proofs.Json.Moves

/-!
# Json — the characters of words and numerals

No bracket, quote, separator or blank is a character of a word or of a numeral, so that inside of
either such a character is refused or ends what is read.

* `Numeral.step_of_not_mem`: a character of no numeral ends a complete numeral, and nothing else.
* `Start.mem`: the characters with which a value can begin.
* `Move.sound`: what is left of a word consists of such characters in every state that is reached.
-/

namespace AgentSurface.Json

/-- The characters of words and numerals. -/
def atomChars : List Char :=
  ['0', '1', '2', '3', '4', '5', '6', '7', '8', '9', '+', '-', '.', 'e', 'E',
    't', 'r', 'u', 'f', 'a', 'l', 's', 'n']

/-! ### Numerals -/

theorem mem_atomChars_of_digit? {c : Char} {d : Nat} (h : digit? c = some d) : c ∈ atomChars := by
  have hbounds : 48 ≤ c.toNat ∧ c.toNat ≤ 57 := by
    unfold digit? at h
    split at h
    · next hc => exact hc
    · cases h
  have hall : ∀ n ∈ List.range' 48 10, Char.ofNat n ∈ atomChars := by decide
  rw [← Char.ofNat_toNat c]
  exact hall c.toNat (List.mem_range'_1.2 ⟨hbounds.1, by omega⟩)

/-- Numbers begin with characters of atoms. -/
theorem Numeral.mem_atomChars_of_start? {c : Char} {numeral : Numeral}
    (h : Numeral.start? c = some numeral) : c ∈ atomChars := by
  unfold Numeral.start? at h
  split at h
  · next hc => subst hc; decide
  split at h
  · next hd => exact mem_atomChars_of_digit? hd
  · next d hd => exact mem_atomChars_of_digit? hd
  · cases h

/-- What goes on a numeral is a digit, a point, a mark or a sign. -/
theorem Numeral.digit_or_mark_of_step {c : Char} {numeral more : Numeral}
    (h : numeral.step c = .more more) :
    (∃ d, digit? c = some d) ∨ c ∈ ['.', 'e', 'E', '+', '-'] := by
  cases hd : digit? c with
  | some d => exact .inl ⟨d, rfl⟩
  | none =>
    refine .inr ?_
    have hmark : ∀ {n : Numeral}, n.endOrMark c = .more more →
        c ∈ ['.', 'e', 'E', '+', '-'] := by
      intro n hn
      unfold Numeral.endOrMark at hn
      split at hn
      · next hc => obtain rfl | rfl := hc <;> decide
      · cases hn
    have hpoint : ∀ {n : Numeral}, n.endOrPoint c = .more more →
        c ∈ ['.', 'e', 'E', '+', '-'] := by
      intro n hn
      unfold Numeral.endOrPoint at hn
      split at hn
      · next hc => subst hc; decide
      · exact hmark hn
    cases hpart : numeral.part <;> simp only [Numeral.step, hpart, hd] at h
    case zero => exact hpoint h
    case whole => exact hpoint h
    case fraction => exact hmark h
    case mark =>
      split at h
      · next hc => subst hc; decide
      split at h
      · next hc => subst hc; decide
      · cases h
    all_goals cases h

/-- Numbers go on with characters of atoms. -/
theorem Numeral.mem_atomChars_of_step {c : Char} {numeral more : Numeral}
    (h : numeral.step c = .more more) : c ∈ atomChars := by
  obtain ⟨d, hd⟩ | hmem := digit_or_mark_of_step h
  · exact mem_atomChars_of_digit? hd
  · have hmarks : ['.', 'e', 'E', '+', '-'] ⊆ atomChars := by simp [atomChars]
    exact hmarks hmem

/-- A digit of the exponent never ends a number. -/
theorem Numeral.addExponent_ne_ended (numeral : Numeral) (d : Nat) :
    numeral.addExponent d ≠ .ended := by
  intro h
  simp only [Numeral.addExponent] at h
  split at h <;> cases h

/-- Only a complete numeral ends. -/
theorem Numeral.complete_of_step {c : Char} {numeral : Numeral} (h : numeral.step c = .ended) :
    numeral.complete = true := by
  cases hpart : numeral.part <;> cases hd : digit? c <;>
    simp [Numeral.step, Numeral.complete, hpart, hd, addExponent_ne_ended] at h ⊢
  case sign.some d => cases d <;> cases h
  case mark.none =>
    split at h
    · cases h
    split at h <;> cases h

/-- A character of no numeral ends a complete numeral, and nothing else. -/
theorem Numeral.step_of_not_mem {c : Char} (h : c ∉ atomChars) (numeral : Numeral) :
    numeral.step c = if numeral.complete then .ended else .refused .invalidNumber := by
  have hd : digit? c = none := by
    cases hd : digit? c with
    | none => rfl
    | some d => exact absurd (mem_atomChars_of_digit? hd) h
  have hne : ∀ d ∈ atomChars, c ≠ d := fun d hmem heq => h (heq ▸ hmem)
  have hmark : ∀ n : Numeral, n.endOrMark c = .ended := fun n => by
    rw [Numeral.endOrMark, if_neg (not_or.2 ⟨hne _ (by decide), hne _ (by decide)⟩)]
  have hpoint : ∀ n : Numeral, n.endOrPoint c = .ended := fun n => by
    rw [Numeral.endOrPoint, if_neg (hne _ (by decide)), hmark]
  cases hpart : numeral.part <;>
    simp [Numeral.step, Numeral.complete, hpart, hd, hmark, hpoint, hne '+' (by decide),
      hne '-' (by decide)]

/-! ### Words and beginnings -/

/-- The three words consist of characters of atoms. -/
theorem Word.mem_atomChars {letters : List Char} {v : Json} (h : Word letters v) :
    ∀ c ∈ letters, c ∈ atomChars := by
  cases h <;> simp [atomChars]

/-- The first characters of a value. -/
theorem Start.mem {context : Context} {c : Char} {s : State} (h : Start context c s) :
    c ∈ '"' :: '[' :: '{' :: atomChars := by
  cases h with
  | string => decide
  | list => decide
  | object => decide
  | word h =>
    have hmem := h.mem_atomChars c List.mem_cons_self
    simp only [List.mem_cons, hmem, or_true]
  | number h => simp only [List.mem_cons, Numeral.mem_atomChars_of_start? h, or_true]

/-! ### Words that are begun -/

/-- What is left of a word consists of its characters. -/
def State.Sound : State → Prop
  | .literal rest _ _ => ∀ c ∈ rest, c ∈ atomChars
  | _ => True

theorem State.sound_supply (context : Context) (v : Json) : (context.supply v).Sound := by
  cases context with
  | nil => trivial
  | cons frame rest => cases frame <;> trivial

/-- A word is begun with the rest of its letters ahead. -/
theorem Start.sound {context : Context} {c : Char} {s : State} (h : Start context c s) :
    s.Sound := by
  cases h with
  | word h => exact fun d hd => h.mem_atomChars d (List.mem_cons_of_mem c hd)
  | _ => trivial

/-- Every character of a word leaves fewer of its letters ahead. -/
theorem Move.sound {s s' : State} {c : Char} (h : Move s c s') (hs : s.Sound) : s'.Sound := by
  induction h with
  | blank => exact hs
  | start h | firstItem h | nextItem h => exact h.sound
  | emptyList | closeList | emptyObject | closeObject | lastLetter => exact State.sound_supply _ _
  | letter => exact fun d hd => hs d (List.mem_cons_of_mem _ hd)
  | numberEnd _ _ _ ih => exact ih (State.sound_supply _ _)
  | @quote text role =>
    cases role with
    | value context => exact State.sound_supply _ _
    | key => trivial
  | _ => trivial

/-- The machine keeps to the letters of words over a whole text. -/
theorem State.sound_of_feed {s s' : State} {text : List Char}
    (h : Text.feed State.step s text = .ok s') (hs : s.Sound) : s'.Sound := by
  induction text generalizing s with
  | nil => cases h; exact hs
  | cons c rest ih =>
    obtain ⟨next, hstep, hrest⟩ := Text.feed_cons_eq_ok_iff.1 h
    exact ih hrest ((Move.of_step hstep).sound hs)

theorem sound_of_feed {s : State} {text : List Char}
    (h : Text.feed State.step .initial text = .ok s) : s.Sound :=
  State.sound_of_feed h trivial

end AgentSurface.Json
