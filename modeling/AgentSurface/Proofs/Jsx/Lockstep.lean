import Mathlib.Algebra.Group.Nat.Defs
import Mathlib.Data.List.Infix
import AgentSurface.Proofs.Json.Atoms
import AgentSurface.Proofs.Json.Prospects
import AgentSurface.Proofs.Json.Readable
import AgentSurface.Proofs.Jsx.Literals

/-!
# Jsx — literals that are texts of Json

A text of Json between the braces of an attribute is read by two machines: that of `Json.read`, and
that of `parse`.  `Mirrors` says how their states agree at each place of the text:

* in the same containers stand the same values, settled as they come (`mirror`);
* a word or a number may be over for the one and still be read by the other, up to the next
  character that ends it (`EndsAt`).

Each character keeps them together (`Mirrors.step`), as long as there is room for the containers and
no string has an escape of a surrogate.  Such escapes stand in pairs for one character, and here
each of them is read on its own (`outcome_surrogate`).

* `Mirrors.feed`: the two readers side by side, over a text.
* `literals_agree`: the literal is the value of the text.
-/

namespace AgentSurface.Json

/-! ### Values in their containers -/

/-- A value with containers around it is nested that much less than the whole value. -/
theorem Context.Leads.nesting_le {context : Context} {x v : Json} (h : context.Leads x v) :
    context.length + x.nesting ≤ v.nesting := by
  induction context generalizing x with
  | nil =>
    obtain rfl : x = v := h
    simp
  | cons frame rest ih =>
    rw [List.length_cons]
    cases frame with
    | item before =>
      obtain ⟨more, hmore⟩ := h
      have hin : x.nesting ≤ nestingItems ((x :: before).reverse ++ more) :=
        nestingItems_le_iff.1 (Nat.le_refl _) x (by simp)
      have hle := ih hmore
      rw [nesting] at hle
      omega
    | member before key =>
      obtain ⟨more, hmore⟩ := h
      have hin : x.nesting ≤ nestingMembers (((key, x) :: before).reverse ++ more) :=
        nestingMembers_le_iff.1 (Nat.le_refl _) (key, x) (by simp)
      have hle := ih hmore
      rw [nesting] at hle
      omega

theorem settledItems_eq_map (items : List Json) : settledItems items = items.map settled := by
  induction items with
  | nil => rfl
  | cons v rest ih => rw [settledItems, ih, List.map_cons]

theorem settledMembers_eq_map (members : Fields) :
    settledMembers members = members.map fun m => (m.1, m.2.settled) := by
  induction members with
  | nil => rfl
  | cons m rest ih => rw [settledMembers, ih, List.map_cons]

/-- Settling a list of values and turning it round may be done in either order. -/
theorem settledItems_reverse (items : List Json) :
    settledItems items.reverse = (settledItems items).reverse := by
  simp [settledItems_eq_map]

/-! ### Words and escapes -/

/-- What a word spells is settled already. -/
theorem Word.settled {letters : List Char} {v : Json} (h : Word letters v) : v.settled = v := by
  cases h <;> rfl

/-- The machine is behind the first half of a pair of surrogates. -/
def State.behindHalf : State → Bool
  | .string _ (.lead _) _ => true
  | _ => false

/-- A hexadecimal digit is worth less than sixteen and takes one byte. -/
theorem hexDigit?_bounds {c : Char} {d : Nat} (h : Text.hexDigit? c = some d) :
    d < 16 ∧ c.utf8Size = 1 := by
  have hdigits : d < 16 ∧ c.toNat ≤ 127 := by
    unfold Text.hexDigit? at h
    split at h
    · next hc =>
      cases h
      obtain ⟨hlow, hhigh⟩ : 48 ≤ c.toNat ∧ c.toNat ≤ 57 := hc
      exact ⟨by show c.toNat - 48 < 16; omega, by omega⟩
    split at h
    · next hc =>
      cases h
      obtain ⟨hlow, hhigh⟩ : 97 ≤ c.toNat ∧ c.toNat ≤ 102 := hc
      exact ⟨by show c.toNat - 97 + 10 < 16; omega, by omega⟩
    split at h
    · next hc =>
      cases h
      obtain ⟨hlow, hhigh⟩ : 65 ≤ c.toNat ∧ c.toNat ≤ 70 := hc
      exact ⟨by show c.toNat - 65 + 10 < 16; omega, by omega⟩
    · cases h
  exact ⟨hdigits.1, Char.utf8Size_eq_one_iff.2 hdigits.2⟩

end AgentSurface.Json

namespace AgentSurface.Jsx

open Text (isBlank)

variable {slot : Slot}

/-! ### States that agree -/

/-- The members before, as they are kept here. -/
def mirrorMembers (before : Json.Fields) : Json.Fields :=
  Json.Fields.ofList (Json.settledMembers before.reverse)

/-- An open container as the markup keeps it: what it holds so far is settled. -/
def mirrorFrame : Json.Frame → Json.Frame
  | .item before => .item (Json.settledItems before)
  | .member before key => .member (mirrorMembers before) key

/-- The containers around a place, as they are kept here. -/
def mirror (context : Json.Context) : Frames := context.map mirrorFrame

/-- What a string is read for, with the containers around it mirrored. -/
def mirrorRole : Json.StringRole → StringRole
  | .value context => .value (mirror context)
  | .key before context => .key (mirrorMembers before) (mirror context)

/-- The member read last is the one put in last. -/
theorem mirrorMembers_cons (key : String) (v : Json) (before : Json.Fields) :
    mirrorMembers ((key, v) :: before) = (mirrorMembers before).insert key v.settled := by
  simp [mirrorMembers, Json.settledMembers_eq_map, Json.Fields.ofList, Json.Fields.merge]

/-- With the next character that ends a word, the machine is at this place. -/
structure EndsAt (x : State) (place : Place) : Prop where
  extend : ∀ c, Delimits c → x.extend? c = none
  settle : ∀ next, x.settle next = .ok place

/-- A state between two tokens ends at its own place. -/
theorem endsAt_at (place : Place) : EndsAt (.at place) place := ⟨fun _ _ => rfl, fun _ => rfl⟩

/-- A character that delimits is read as by the place the state ends at. -/
theorem EndsAt.step {x : State} {place : Place} (h : EndsAt x place) {c : Char} (hc : Delimits c) :
    x.step c = place.advance c := by
  rw [State.step, h.extend c hc, h.settle]

/-- The same place in a string that has no escape of a surrogate. -/
inductive MirrorsPart : Json.StringPart → StringPart → Prop where
  | plain : MirrorsPart .plain .plain
  | backslash : MirrorsPart .backslash .backslash
  | hex {taken code : Nat} (htaken : taken < 4) (hcode : code < 16 ^ taken) :
    MirrorsPart (.hex taken (some code) none) (.hex taken code)

/-- The two machines have read the same part of a value. -/
inductive Mirrors (slot : Slot) : Json.State → State → Prop where
  | value {context : Json.Context} {place : Place} {role : IdentRole}
    (h : Awaits place (mirror context) slot role) : Mirrors slot (.value context) (.at place)
  | listStart {context : Json.Context} :
    Mirrors slot (.listStart context) (.at (.listNext [] (mirror context) slot))
  | listNext {before : List Json} {context : Json.Context} :
    Mirrors slot (.listNext before context)
      (.at (.listNext (Json.settledItems before) (mirror context) slot))
  | listMore {before : List Json} {context : Json.Context} {x : State}
    (h : EndsAt x (.listMore (Json.settledItems before) (mirror context) slot)) :
    Mirrors slot (.listMore before context) x
  | objectStart {context : Json.Context} :
    Mirrors slot (.objectStart context) (.at (.objectNext [] (mirror context) slot))
  | objectNext {before : Json.Fields} {context : Json.Context} :
    Mirrors slot (.objectNext before context)
      (.at (.objectNext (mirrorMembers before) (mirror context) slot))
  | colon {before : Json.Fields} {key : String} {context : Json.Context} :
    Mirrors slot (.colon before key context)
      (.at (.colon (mirrorMembers before) key (mirror context) slot))
  | objectMore {before : Json.Fields} {context : Json.Context} {x : State}
    (h : EndsAt x (.objectMore (mirrorMembers before) (mirror context) slot)) :
    Mirrors slot (.objectMore before context) x
  | word {read rest : List Char} {v : Json} {context : Json.Context} {role : IdentRole}
    (hword : Json.Word (read.reverse ++ rest) v) (hread : read.head? ≠ some '.')
    (hrole : ∀ word, wordLiteral? word = some v →
      role.supply word = .ok (supply v (mirror context) slot)) :
    Mirrors slot (.literal rest v context) (.ident read role)
  | number {numeral : Json.Numeral} {context : Json.Context} {read : List Char}
    (h : ∀ rest, Json.Number.ofText? (read.reverse ++ rest) = numeral.finish? rest) :
    Mirrors slot (.number numeral context) (.number read (mirror context) slot)
  | string {text : String} {part : Json.StringPart} {part' : StringPart} {role : Json.StringRole}
    (h : MirrorsPart part part') :
    Mirrors slot (.string text part role) (.at (.string '"' text part' (mirrorRole role) slot))
  | done {v : Json} {x : State} (h : EndsAt x (.valueEnd (.literal v.settled) slot)) :
    Mirrors slot (.done v) x

/-- A value is put into its place by both machines. -/
theorem Mirrors.supply {context : Json.Context} {v : Json} {x : State}
    (h : EndsAt x (Jsx.supply v.settled (mirror context) slot)) :
    Mirrors slot (context.supply v) x := by
  match context with
  | [] => exact .done h
  | .item before :: rest => exact .listMore h
  | .member before key :: rest =>
    refine .objectMore ?_
    rw [mirrorMembers_cons]
    exact h

/-- A value handed to its context is matched by its settled form in the mirrored one. -/
theorem Mirrors.supply_at (context : Json.Context) (v : Json) :
    Mirrors slot (context.supply v) (.at (Jsx.supply v.settled (mirror context) slot)) :=
  .supply (endsAt_at _)

/-- Both readers begin a string with nothing read of it. -/
theorem Mirrors.string_begin (role : Json.StringRole) :
    Mirrors slot (.string "" .plain role) (.at (.string '"' "" .plain (mirrorRole role) slot)) :=
  .string .plain

/-! ### The beginning of a value -/

/-- White space between tokens is blank to the markup as well. -/
theorem isBlank_of_isSpace {c : Char} (h : Json.isSpace c = true) : isBlank c = true := by
  simp only [Json.isSpace, Bool.or_eq_true, beq_iff_eq] at h
  rcases h with ((rfl | rfl) | rfl) | rfl <;> rfl

theorem isDigit_of_digit? {c : Char} {d : Nat} (h : Json.digit? c = some d) : c.isDigit = true := by
  unfold Json.digit? at h
  split at h
  · next hc => exact Char.isDigit_iff_toNat.2 hc
  · cases h

/-- Every character that carries a numeral on may stand in one to the markup. -/
theorem isNumeral_of_step {c : Char} {numeral more : Json.Numeral}
    (h : numeral.step c = .more more) : isNumeral c = true := by
  obtain ⟨d, hd⟩ | hmem := Json.Numeral.digit_or_mark_of_step h
  · simp [isNumeral, isDigit_of_digit? hd]
  · have hmarks : ∀ c ∈ ['.', 'e', 'E', '+', '-'], isNumeral c = true := List.all_eq_true.1 rfl
    exact hmarks c hmem

/-- The letters of the three words may begin a name, so the markup reads them as one. -/
theorem isIdentStart_of_word {letters : List Char} {v : Json} (h : Json.Word letters v) :
    ∀ c ∈ letters, isIdentStart c = true := by
  rw [← List.all_eq_true]
  cases h <;> rfl

/-- The markup knows the three words and reads the same values from them. -/
theorem wordLiteral?_of_word {letters : List Char} {v : Json} (h : Json.Word letters v) :
    wordLiteral? (String.ofList letters) = some v := by
  cases h <;> rfl

/-- Around a list or an object there is room for one more container. -/
theorem depth_lt_of_leads {context : Json.Context} {x w : Json} (h : context.Leads x w)
    (hx : 0 < x.nesting) (hroom : slot.depth + w.nesting ≤ maxDepth) :
    slot.depth + (mirror context).length < maxDepth := by
  have hle := h.nesting_le
  rw [mirror, List.length_map]
  omega

/-- Where a value begins, both machines begin with it. -/
theorem Mirrors.start (context : Json.Context) {place : Place} {role : IdentRole}
    (ha : Awaits place (mirror context) slot role) {c : Char} {j : Json.State}
    (h : Json.Start context c j) {w : Json} (hw : j.MayBecome w)
    (hroom : slot.depth + w.nesting ≤ maxDepth) :
    ∃ x, place.advance c = .ok x ∧ Mirrors slot j x := by
  cases h with
  | string =>
    exact ⟨_, ha.begins '"' (.inl rfl), .string_begin (.value context)⟩
  | list =>
    obtain ⟨items, hitems⟩ := hw
    have hdepth := depth_lt_of_leads hitems (by simp [Json.nesting]) hroom
    exact ⟨_, (ha.begins '[' (by simp [BeginsLiteral])).trans (if_pos hdepth), .listStart⟩
  | object =>
    obtain ⟨fields, hfields⟩ := hw
    have hdepth := depth_lt_of_leads hfields (by simp [Json.nesting]) hroom
    exact ⟨_, (ha.begins '{' (by simp [BeginsLiteral])).trans (if_pos hdepth), .objectStart⟩
  | word hword =>
    have hstart := isIdentStart_of_word hword c List.mem_cons_self
    exact ⟨_, ha.advance_ident hstart, .word hword (by rintro ⟨⟩; cases hstart) (ha.words · _)⟩
  | number hstart =>
    refine ⟨_, ha.advance_number ?_, .number fun rest => by simp [Json.Number.ofText?, hstart]⟩
    unfold Json.Numeral.start? at hstart
    split at hstart
    · next hc => exact .inl hc
    split at hstart
    · next hd => exact .inr (isDigit_of_digit? hd)
    · next hd => exact .inr (isDigit_of_digit? hd)
    · cases hstart

/-! ### One character -/

/-- Between the parts of a value, blanks stand for nothing. -/
theorem Mirrors.blank {j : Json.State} {x : State} (hm : Mirrors slot j x) (hj : j.Between)
    {c : Char} (hc : Json.isSpace c = true) : ∃ x', x.step c = .ok x' ∧ Mirrors slot j x' := by
  have hblank := isBlank_of_isSpace hc
  have hskip : ∀ {x place}, EndsAt x place → place.skipsBlanks = true →
      x.step c = .ok (.at place) := fun h hplace =>
    (h.step (.inl hblank)).trans (Place.advance_blank hplace hblank)
  cases hm with
  | value ha => exact ⟨_, hskip (endsAt_at _) ha.skips, .value ha⟩
  | listStart => exact ⟨_, hskip (endsAt_at _) rfl, .listStart⟩
  | listNext => exact ⟨_, hskip (endsAt_at _) rfl, .listNext⟩
  | listMore h => exact ⟨_, hskip h rfl, .listMore (endsAt_at _)⟩
  | objectStart => exact ⟨_, hskip (endsAt_at _) rfl, .objectStart⟩
  | objectNext => exact ⟨_, hskip (endsAt_at _) rfl, .objectNext⟩
  | colon => exact ⟨_, hskip (endsAt_at _) rfl, .colon⟩
  | objectMore h => exact ⟨_, hskip h rfl, .objectMore (endsAt_at _)⟩
  | done h => exact ⟨_, hskip h rfl, .done (endsAt_at _)⟩
  | word | number | string => exact hj.elim

/-- A letter of a word is put to the letters before it. -/
theorem step_ident_of_word {read rest : List Char} {c : Char} {v : Json}
    (hword : Json.Word (read.reverse ++ c :: rest) v) (role : IdentRole) :
    (State.ident read role).step c = .ok (.ident (c :: read) role) ∧
      (c :: read).head? ≠ some '.' := by
  have hc := isIdentStart_of_word hword c (by simp)
  have hextend : (State.ident read role).extend? c = some (.ident (c :: read) role) := by
    simp [State.extend?, hc]
  refine ⟨by rw [State.step, hextend], ?_⟩
  rintro ⟨⟩
  cases hc

/-- A word that is read is over with the next character that ends one. -/
theorem endsAt_word {read : List Char} {v : Json} {context : Json.Context} {role : IdentRole}
    (hword : Json.Word read.reverse v) (hread : read.head? ≠ some '.')
    (hrole : ∀ word, wordLiteral? word = some v →
      role.supply word = .ok (supply v (mirror context) slot)) :
    EndsAt (.ident read role) (supply v.settled (mirror context) slot) where
  extend c hc := by
    obtain ⟨hstart, hdigit, hdot⟩ := hc.endsPath
    simp [State.extend?, hstart, hdigit, hdot]
  settle next := by
    rw [State.settle, if_neg hread, hrole _ (wordLiteral?_of_word hword), hword.settled]

/-- A number that is read is over with the next character that ends one. -/
theorem endsAt_number (context : Json.Context) {numeral : Json.Numeral} {n : Json.Number}
    {read : List Char}
    (h : ∀ rest, Json.Number.ofText? (read.reverse ++ rest) = numeral.finish? rest)
    (hcomplete : numeral.complete = true) (hn : numeral.value? = some n) :
    EndsAt (.number read (mirror context) slot)
      (supply (Json.number n).settled (mirror context) slot) where
  extend c hc := by simp [State.extend?, hc.not_isNumeral]
  settle next := by
    have hvalue : Json.Number.ofText? read.reverse = some n := by
      simpa [Json.Numeral.finish?, hcomplete, hn] using h []
    simp only [State.settle, hvalue]
    rfl

/-- Outside of strings, a character that the one machine takes is taken by the other. -/
theorem Mirrors.move {j j' : Json.State} {c : Char} (h : Json.Move j c j')
    (hj : ∀ text part role, j ≠ .string text part role) {x : State} (hm : Mirrors slot j x)
    {w : Json} (hw : j'.MayBecome w) (hroom : slot.depth + w.nesting ≤ maxDepth) :
    ∃ x', x.step c = .ok x' ∧ Mirrors slot j' x' := by
  -- The induction is for numerals: what ends one is taken as it is behind the number.
  induction h generalizing x with
  | blank hs hc => exact hm.blank hs hc
  | start h =>
    cases hm with
    | value ha => exact Mirrors.start _ ha h hw hroom
  | @firstItem context c s h =>
    cases hm with
    | listStart =>
      exact Mirrors.start (.item [] :: context) (awaits_listNext [] _ slot) h hw hroom
  | @nextItem before context c s h =>
    cases hm with
    | listNext =>
      exact Mirrors.start (.item before :: context) (awaits_listNext _ _ slot) h hw hroom
  | emptyList =>
    cases hm with
    | listStart => exact ⟨_, rfl, .supply_at _ (.array [])⟩
  | listComma =>
    cases hm with
    | listMore h => exact ⟨_, (h.step (by simp [Delimits])).trans rfl, .listNext⟩
  | @closeList before context =>
    cases hm with
    | listMore h =>
      have hsettled : (Json.array before.reverse).settled =
          .array (Json.settledItems before).reverse := by
        rw [Json.settled, Json.settledItems_reverse]
      refine ⟨_, (h.step (by simp [Delimits])).trans rfl, ?_⟩
      rw [← hsettled]
      exact .supply_at _ _
  | @firstKey context =>
    cases hm with
    | objectStart => exact ⟨_, rfl, .string_begin (.key [] context)⟩
  | @nextKey before context =>
    cases hm with
    | objectNext => exact ⟨_, rfl, .string_begin (.key before context)⟩
  | emptyObject =>
    cases hm with
    | objectStart => exact ⟨_, rfl, .supply_at _ (.object [])⟩
  | @colon before key context =>
    cases hm with
    | colon =>
      exact ⟨_, rfl, .value
        (awaits_memberValue (mirrorMembers before) key (mirror context) slot)⟩
  | objectComma =>
    cases hm with
    | objectMore h => exact ⟨_, (h.step (by simp [Delimits])).trans rfl, .objectNext⟩
  | @closeObject before context =>
    cases hm with
    | objectMore h =>
      have hsettled : (Json.object before.reverse).settled = .object (mirrorMembers before) := by
        rw [Json.settled, mirrorMembers]
      refine ⟨_, (h.step (by simp [Delimits])).trans rfl, ?_⟩
      rw [← hsettled]
      exact .supply_at _ _
  | @letter c next rest v context =>
    cases hm with
    | @word read _ _ _ role hword hread hrole =>
      obtain ⟨hstep, hmore⟩ := step_ident_of_word hword role
      exact ⟨_, hstep, .word (by simpa using hword) hmore hrole⟩
  | @lastLetter c v context =>
    cases hm with
    | @word read _ _ _ role hword hread hrole =>
      obtain ⟨hstep, hmore⟩ := step_ident_of_word hword role
      exact ⟨_, hstep, .supply (endsAt_word (by simpa using hword) hmore hrole)⟩
  | @digit numeral more context c hstep =>
    cases hm with
    | @number _ _ read h =>
      have hextend : (State.number read (mirror context) slot).extend? c =
          some (.number (c :: read) (mirror context) slot) := by
        simp [State.extend?, isNumeral_of_step hstep]
      refine ⟨_, by rw [State.step, hextend], .number fun rest => ?_⟩
      rw [List.reverse_cons, List.append_assoc, List.singleton_append, h, Json.Numeral.finish?,
        hstep]
  | @numberEnd numeral n context c s hended hn hs ih =>
    cases hm with
    | number h =>
      refine ih (fun text part role hstring => ?_) ?_ hw
      · have hbetween := Json.State.between_supply (.number n) context
        rw [hstring] at hbetween
        exact hbetween
      · exact .supply (endsAt_number _ h (Json.Numeral.complete_of_step hended) hn)
  | quote => exact absurd rfl (hj _ _ _)
  | inside => exact absurd rfl (hj _ _ _)

/-! ### Strings -/

/-- Both readers do the same with a string that has ended. -/
theorem mirrors_closeString (text : String) (role : Json.StringRole) :
    Mirrors slot (Json.State.closeString text role)
      (.at ((mirrorRole role).supply text slot)) := by
  cases role with
  | value context => exact .supply_at context (.string text)
  | key before context => exact .colon

theorem escape_of_shortEscape? {c meant : Char} (h : Json.State.shortEscape? c = some meant) :
    Escape c meant := by
  unfold Json.State.shortEscape? at h
  split at h
  · next hc =>
    cases h
    obtain rfl | rfl | rfl := hc <;> exact .itself (by decide)
  split at h
  · next hc => subst hc; cases h; exact .backspace
  split at h
  · next hc => subst hc; cases h; exact .formFeed
  split at h
  · next hc => subst hc; cases h; exact .feed
  split at h
  · next hc => subst hc; cases h; exact .carriage
  split at h
  · next hc => subst hc; cases h; exact .tab
  · cases h

/-- A `\u` escape goes on, or ends with a character that is no surrogate. -/
theorem Mirrors.hexStep {text : String} {taken code : Nat} {role : Json.StringRole} {c : Char}
    {j : Json.State} (htaken : taken < 4) (hcode : code < 16 ^ taken)
    (h : Json.State.hexStep text role taken (some code) none c = .ok j) {w : Json}
    (hw : j.MayBecome w) (hhalf : j.behindHalf = false) :
    ∃ x, (Place.string '"' text (.hex taken code) (mirrorRole role) slot).advance c = .ok x ∧
      Mirrors slot j x := by
  cases hd : Text.hexDigit? c with
  | none =>
    simp only [Json.State.hexStep, hd, Option.bind_some, Option.map_none] at h
    split at h
    · cases h
      exact absurd hw.1 Bool.false_ne_true
    · cases h
  | some d =>
    obtain ⟨hlt, hsize⟩ := Json.hexDigit?_bounds hd
    simp only [Json.State.hexStep, hd, hsize, Option.bind_some, Option.map_some] at h
    simp only [Place.advance, stringStep, hd]
    split at h
    · next hmore =>
      cases h
      have hpow : code * 16 + d < 16 ^ (taken + 1) := by rw [Nat.pow_succ]; omega
      exact ⟨_, if_pos (by omega), .string (.hex hmore hpow)⟩
    · next hlast =>
      obtain rfl : taken = 3 := by omega
      simp only [Json.State.closeHex] at h
      split at h
      · cases h
      split at h
      · cases h
        exact Bool.noConfusion hhalf
      · next htrail hlead =>
        cases h
        simp only [Json.State.isTrailSurrogate, Json.State.isLeadSurrogate, Bool.and_eq_true,
          decide_eq_true_eq, not_and, Nat.not_le] at htrail hlead
        have hvalid : (code * 16 + d).isValidChar := by
          unfold Nat.isValidChar
          omega
        refine ⟨_, (if_neg (by omega)).trans ?_, .string .plain⟩
        rw [if_pos hvalid]
        rfl

/-- Inside a string, a character that the one machine takes is taken by the other, if the string
has no escape of a surrogate. -/
theorem Mirrors.stringStep {text : String} {part : Json.StringPart} {part' : StringPart}
    {role : Json.StringRole} (hpart : MirrorsPart part part') {c : Char} {j : Json.State}
    (h : Json.State.stringStep text part role c = .ok j) {w : Json} (hw : j.MayBecome w)
    (hhalf : j.behindHalf = false) :
    ∃ x, (Place.string '"' text part' (mirrorRole role) slot).advance c = .ok x ∧
      Mirrors slot j x := by
  cases hpart with
  | plain =>
    simp only [Json.State.stringStep] at h
    split at h
    · next hc =>
      subst hc
      cases h
      exact ⟨_, rfl, mirrors_closeString text role⟩
    split at h
    · next hc =>
      subst hc
      cases h
      exact ⟨_, rfl, .string .backslash⟩
    split at h
    · cases h
    · next hquote hslash _ =>
      cases h
      exact ⟨_, (if_neg hquote).trans (if_neg hslash), .string .plain⟩
  | backslash =>
    simp only [Json.State.stringStep] at h
    split at h
    · next hc =>
      subst hc
      cases h
      exact ⟨_, rfl, .string (.hex (by decide) (by decide))⟩
    split at h
    · next meant hmeant =>
      cases h
      exact ⟨_, advance_escape (escape_of_shortEscape? hmeant) '"' text _ slot, .string .plain⟩
    · cases h
  | hex htaken hcode => exact Mirrors.hexStep htaken hcode h hw hhalf

/-- An escape of a surrogate stands for no character here, whatever stands beside it. -/
theorem outcome_surrogate {quote : Char} (hquote : isQuote quote = true) (read : String)
    {c₁ c₂ c₃ c₄ : Char} {d₁ d₂ d₃ d₄ : Nat} (h₁ : Text.hexDigit? c₁ = some d₁)
    (h₂ : Text.hexDigit? c₂ = some d₂) (h₃ : Text.hexDigit? c₃ = some d₃)
    (h₄ : Text.hexDigit? c₄ = some d₄)
    (hlow : 0xD800 ≤ ((d₁ * 16 + d₂) * 16 + d₃) * 16 + d₄)
    (hhigh : ((d₁ * 16 + d₂) * 16 + d₃) * 16 + d₄ ≤ 0xDFFF) (role : StringRole)
    (rest : List Char) :
    outcome (.at (.string quote read .plain role slot))
        ('\\' :: 'u' :: c₁ :: c₂ :: c₃ :: c₄ :: rest) =
      outcome (.at (.string quote (read.push Text.Utf8.replacement) .plain role slot)) rest := by
  have hvalid : ¬ (((d₁ * 16 + d₂) * 16 + d₃) * 16 + d₄).isValidChar := by
    unfold Nat.isValidChar
    omega
  rw [outcome_code hquote read h₁ h₂ h₃ h₄, if_neg hvalid]

/-! ### Texts -/

/-- **Every character keeps the two readers together.** -/
theorem Mirrors.step {j j' : Json.State} {c : Char} (h : j.step c = .ok j') {x : State}
    (hm : Mirrors slot j x) {w : Json} (hw : j'.MayBecome w)
    (hroom : slot.depth + w.nesting ≤ maxDepth)
    (hhalf : j'.behindHalf = false) :
    ∃ x', x.step c = .ok x' ∧ Mirrors slot j' x' := by
  cases j with
  | string text part role =>
    cases hm with
    | string hpart => exact Mirrors.stringStep hpart h hw hhalf
  | _ => exact hm.move (.of_step h) nofun hw hroom

/-- What both machines take of a text leaves them together. -/
theorem Mirrors.feed {j j' : Json.State} {t : List Char}
    (h : Text.feed Json.State.step j t = .ok j') {x : State} (hm : Mirrors slot j x) {w : Json}
    (hw : j'.MayBecome w) (hroom : slot.depth + w.nesting ≤ maxDepth)
    (hhalf : ∀ read mid, read <+: t → Text.feed Json.State.step j read = .ok mid →
      mid.behindHalf = false) :
    ∃ x', Text.feed State.step x t = .ok x' ∧ Mirrors slot j' x' := by
  induction t generalizing j x with
  | nil =>
    cases h
    exact ⟨x, rfl, hm⟩
  | cons c rest ih =>
    obtain ⟨next, hstep, hrest⟩ := Text.feed_cons_eq_ok_iff.1 h
    have hnext : next.behindHalf = false :=
      hhalf [c] next ⟨rest, rfl⟩ (Text.feed_cons_eq_ok_iff.2 ⟨next, hstep, rfl⟩)
    obtain ⟨x₁, hx₁, hm₁⟩ := hm.step hstep (Json.State.mayBecome_of_feed hrest hw) hroom hnext
    obtain ⟨x', hx', hm'⟩ := ih hrest hm₁ fun read mid hread hmid =>
      hhalf (c :: read) mid ((List.prefix_cons_inj c).2 hread)
        (Text.feed_cons_eq_ok_iff.2 ⟨next, hstep, hmid⟩)
    exact ⟨x', Text.feed_cons_eq_ok_iff.2 ⟨x₁, hx₁, hx'⟩, hm'⟩

/-- Where the text is a whole value for the one, the other is behind this value. -/
theorem Mirrors.endsAt {j : Json.State} {x : State} (hm : Mirrors slot j x) {w : Json}
    (hw : j.finish = .ok w) : EndsAt x (.valueEnd (.literal w.settled) slot) := by
  cases hm with
  | done h =>
    cases hw
    exact h
  | @number numeral context read h =>
    simp only [Json.State.finish] at hw
    split at hw
    · next hcomplete =>
      split at hw <;> cases hw
      next n hn => exact endsAt_number [] h hcomplete hn
    · cases hw
  | _ => cases hw

/-- The text has an escape of a surrogate: its reader comes behind the first half of a pair. -/
def escapesSurrogate (t : List Char) : Bool :=
  t.inits.any fun read =>
    match Text.feed Json.State.step .initial read with
    | .ok j => j.behindHalf
    | .error _ => false

/-- A text with no escaped surrogate leaves the reader nowhere behind half of a pair. -/
theorem behindHalf_of_isPrefix {t read : List Char} (h : escapesSurrogate t = false)
    (hread : read <+: t) {j : Json.State}
    (hj : Text.feed Json.State.step .initial read = .ok j) : j.behindHalf = false := by
  have hnone := List.any_eq_false.1 h read ((List.mem_inits read t).2 hread)
  rw [hj] at hnone
  simpa using hnone

/-- An element with a literal as its only attribute. -/
def sourceOf (t : List Char) : List Char :=
  ['<', 'A', ' ', 'v', '=', '{'] ++ t ++ ['}', '/', '>']

/-- **Literals agree with Json.**  A text that is read as a value of Json, nested at most 63 levels
and without escapes of surrogates, is read as the same value between the braces of an attribute:
with the same keys in the same order, the same strings and the same numbers. -/
theorem literals_agree {t : List Char} {w : Json} (hread : Json.read t = .ok w)
    (hnesting : w.nesting ≤ 63) (hplain : escapesSurrogate t = false) :
    Json.parse t = .ok w.settled ∧
      parse (sourceOf t) = .ok [.element "A" [⟨"v", .literal w.settled⟩] []] := by
  refine ⟨by rw [Json.parse, hread]; rfl, ?_⟩
  obtain ⟨j, hj, hfinish⟩ := Json.State.gives?_eq_some_iff.1 (Json.read_eq_ok_iff.1 hread)
  let slot : Slot := .attribute "v" ⟨"A", []⟩ ⟨[], []⟩
  have hopen : Text.feed State.step .initial ['<', 'A', ' ', 'v', '=', '{'] =
      .ok (.at (.value "v" ⟨"A", []⟩ ⟨[], []⟩)) := rfl
  have hbegin : Mirrors slot .initial (.at (.value "v" ⟨"A", []⟩ ⟨[], []⟩)) :=
    .value (awaits_value "v" ⟨"A", []⟩ ⟨[], []⟩)
  have hroom : slot.depth + w.nesting ≤ maxDepth := by
    show 0 + 1 + w.nesting ≤ 64
    omega
  obtain ⟨x, hx, hm⟩ := hbegin.feed hj (Json.State.mayBecome_of_finish hfinish) hroom
    fun _ _ hread hmid => behindHalf_of_isPrefix hplain hread hmid
  have hclose : Text.feed State.step x ['}', '/', '>'] =
      .ok (.at (.content ⟨[.element "A" [⟨"v", .literal w.settled⟩] []], []⟩)) :=
    Text.feed_cons_eq_ok_iff.2 ⟨_, (hm.endsAt hfinish).step (by simp [Delimits]), rfl⟩
  have hall : Text.feed State.step .initial (sourceOf t) =
      .ok (.at (.content ⟨[.element "A" [⟨"v", .literal w.settled⟩] []], []⟩)) := by
    rw [sourceOf, List.append_assoc, Text.feed_append hopen, Text.feed_append hx, hclose]
  rw [parse, hall]
  rfl

/-- A key that stands twice, an escape, and blanks around everything. -/
theorem literals_agree_mixed :
    escapesSurrogate "\x7b\"k\":[], \"\\u00e9\":[ 1 ,true],\"k\":null\x7d ".toList = false ∧
      parse (sourceOf "\x7b\"k\":[], \"\\u00e9\":[ 1 ,true],\"k\":null\x7d ".toList) =
        .ok [.element "A" [⟨"v", .literal (.object [("k", .null),
          ("é", .array [.number (.whole ⟨1, by decide, by decide⟩), .bool true])])⟩] []] := by
  have hread : Json.read "\x7b\"k\":[], \"\\u00e9\":[ 1 ,true],\"k\":null\x7d ".toList =
      .ok (.object [("k", .array []),
        ("é", .array [.number (.whole ⟨1, by decide, by decide⟩), .bool true]), ("k", .null)]) := by
    have htext : "\x7b\"k\":[], \"\\u00e9\":[ 1 ,true],\"k\":null\x7d ".toList =
        ['{', '"', 'k', '"', ':', '[', ']', ',', ' ', '"', '\\', 'u', '0', '0', 'e', '9', '"',
          ':', '[', ' ', '1', ' ', ',', 't', 'r', 'u', 'e', ']', ',', '"', 'k', '"', ':', 'n', 'u',
          'l', 'l', '}', ' '] := rfl
    rw [htext]
    rfl
  have hplain : escapesSurrogate "\x7b\"k\":[], \"\\u00e9\":[ 1 ,true],\"k\":null\x7d ".toList =
      false := by
    decide +kernel
  have hagree := (literals_agree hread (by simp [Json.nesting, Json.nestingMembers,
    Json.nestingItems]) hplain).2
  refine ⟨hplain, hagree.trans ?_⟩
  simp [Json.settled, Json.settledMembers, Json.settledItems, Json.Fields.ofList,
    Json.Fields.merge, Json.Fields.insert]

/-- The halves of a pair are one character for Json, and here two that stand for none. -/
theorem literals_differ_pair :
    Json.parse "\"\\ud83d\\ude00\"".toList = .ok (.string "😀") ∧
      (Json.string "😀").nesting ≤ 63 ∧
      parse (sourceOf "\"\\ud83d\\ude00\"".toList) =
        .ok [.element "A" [⟨"v", .literal (.string "\uFFFD\uFFFD")⟩] []] ∧
      "😀" ≠ "\uFFFD\uFFFD" := by
  have htext : "\"\\ud83d\\ude00\"".toList =
      ['"', '\\', 'u', 'd', '8', '3', 'd', '\\', 'u', 'd', 'e', '0', '0', '"'] := rfl
  rw [htext]
  exact ⟨rfl, Nat.zero_le _, rfl, by decide⟩

end AgentSurface.Jsx
