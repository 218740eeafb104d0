import AgentSurface.Proofs.Json.Fields
import AgentSurface.Proofs.Jsx.Characters
import AgentSurface.Proofs.Jsx.Pieces

/-!
# Jsx — literals are read back

A literal can begin at four places: behind the brace of an attribute or of a child, and in a list or
an object behind what separates its parts.  `Awaits` is what these places have in common.  From each
of them a spelling of a literal leads to where the literal is put into its place, one level deeper
for each container around it.

* `Literal.Spells.reads`: all spellings of a literal are read as the literal.
* `outcome_braced`: a value in braces, a literal or a path.
-/

namespace AgentSurface.Jsx

open Text (isBlank)

/-! ### The end of a word -/

/-- What stands behind a number or a word begins with a character that ends it. -/
def EndsWord (rest : List Char) : Prop := ∀ c ∈ rest.head?, Delimits c

/-- Blanks may stand between a word and what ends it. -/
theorem endsWord_blanks {b : List Char} (hb : Blanks b) {c : Char} (hc : Delimits c)
    (rest : List Char) : EndsWord (b ++ c :: rest) := by
  intro d hd
  cases b with
  | nil => exact Option.some.inj hd ▸ hc
  | cons e b => exact .inl (Option.some.inj hd ▸ hb e (by simp))

/-! ### Places that await a literal -/

/-- At the place blanks stand for nothing, and a literal inside these containers can begin; `role`
says what becomes of a word. -/
structure Awaits (p : Place) (frames : Frames) (slot : Slot) (role : IdentRole) : Prop where
  skips : p.skipsBlanks = true
  begins : ∀ c, BeginsLiteral c → p.advance c = beginLiteral frames slot role c
  words : ∀ word v, wordLiteral? word = some v → role.supply word = .ok (supply v frames slot)

/-- Behind an equals sign and a brace. -/
theorem awaits_value (name : String) (t : Tag) (site : Site) :
    Awaits (.value name t site) [] (.attribute name t site) (.value (.attribute name t site)) where
  skips := rfl
  begins c hc := by simp [Place.advance, hc.not_isBlank, beginValue]
  words word v hv := by simp [IdentRole.supply, hv, supply]

/-- Behind a brace among children. -/
theorem awaits_brace (site : Site) :
    Awaits (.brace site) [] (.child site) (.value (.child site)) where
  skips := rfl
  begins c hc := by
    have hslash : c ≠ '/' := hc.ne (by simp [BeginsLiteral]; decide)
    have hbrace : c ≠ '}' := hc.ne (by simp [BeginsLiteral]; decide)
    simp [Place.advance, hc.not_isBlank, beginValue, hslash, hbrace]
  words word v hv := by simp [IdentRole.supply, hv, supply]

/-- In a list, where an element may stand. -/
theorem awaits_listNext (before : List Json) (frames : Frames) (slot : Slot) :
    Awaits (.listNext before frames slot) (.item before :: frames) slot
      (.literal (.item before :: frames) slot) where
  skips := rfl
  begins c hc := by
    have hbracket : c ≠ ']' := hc.ne (by simp [BeginsLiteral]; decide)
    simp [Place.advance, hc.not_isBlank, beginPart, hbracket]
  words word v hv := by simp [IdentRole.supply, hv]

/-- In an object, behind a colon. -/
theorem awaits_memberValue (before : Json.Fields) (key : String) (frames : Frames) (slot : Slot) :
    Awaits (.memberValue before key frames slot) (.member before key :: frames) slot
      (.literal (.member before key :: frames) slot) where
  skips := rfl
  begins c hc := by simp [Place.advance, hc.not_isBlank, beginPart]
  words word v hv := by simp [IdentRole.supply, hv]

/-- The words with a meaning are paths by their form, so they are read like one. -/
theorem isPath_of_wordLiteral? {word : String} {v : Json} (h : wordLiteral? word = some v) :
    IsPath word.toList := by
  have hmem : word = "true" ∨ word = "false" ∨ word = "null" := by
    unfold wordLiteral? at h
    split at h
    · exact .inl ‹_›
    · split at h
      · exact .inr (.inl ‹_›)
      · split at h
        · exact .inr (.inr ‹_›)
        · simp at h
  have hletters : ∀ c rest, isIdentStart c = true → rest.all isIdentStart = true →
      IsPath (c :: rest) := fun c rest hc hrest =>
    .one ⟨c, rest, rfl, hc, fun d hd => .inl (List.all_eq_true.1 hrest d hd)⟩
  rcases hmem with rfl | rfl | rfl
  · exact hletters 't' ['r', 'u', 'e'] rfl rfl
  · exact hletters 'f' ['a', 'l', 's', 'e'] rfl rfl
  · exact hletters 'n' ['u', 'l', 'l'] rfl rfl

section Awaits

variable {p : Place} {frames : Frames} {slot : Slot} {role : IdentRole}

theorem beginLiteral_of_isIdentStart {c : Char} (hc : isIdentStart c = true) :
    beginLiteral frames slot role c = .ok (.ident [c] role) := by
  have hquote : isQuote c = false := not_isQuote rfl rfl hc
  have hbracket : c ≠ '[' := ne_of_class hc rfl
  have hbrace : c ≠ '{' := ne_of_class hc rfl
  have hminus : c ≠ '-' := ne_of_class hc rfl
  have hdigit := not_isDigit_of_isIdentStart hc
  simp [beginLiteral, hquote, hbracket, hbrace, hminus, hdigit, hc]

/-- A word begins where a value is awaited. -/
theorem Awaits.advance_ident (ha : Awaits p frames slot role) {c : Char}
    (hc : isIdentStart c = true) :
    p.advance c = .ok (.ident [c] role) :=
  (ha.begins c (by simp [BeginsLiteral, hc])).trans (beginLiteral_of_isIdentStart hc)

/-- A number begins where a value is awaited. -/
theorem Awaits.advance_number (ha : Awaits p frames slot role) {c : Char}
    (hc : c = '-' ∨ c.isDigit = true) : p.advance c = .ok (.number [c] frames slot) := by
  rcases hc with rfl | hc
  · exact ha.begins '-' (by simp [BeginsLiteral])
  · have hquote : isQuote c = false := not_isQuote (p := Char.isDigit) rfl rfl hc
    have hbracket : c ≠ '[' := ne_of_class (p := Char.isDigit) hc rfl
    have hbrace : c ≠ '{' := ne_of_class (p := Char.isDigit) hc rfl
    rw [ha.begins c (by simp [BeginsLiteral, hc])]
    simp [beginLiteral, hquote, hbracket, hbrace, hc]

/-- A word that is a literal. -/
theorem outcome_word (ha : Awaits p frames slot role) (word : String) {v : Json}
    (hword : wordLiteral? word = some v) {rest : List Char} (hrest : EndsWord rest) :
    outcome (.at p) (word.toList ++ rest) = outcome (.at (supply v frames slot)) rest :=
  outcome_path (fun _ hc => ha.advance_ident hc) (isPath_of_wordLiteral? hword)
    (ha.words word v hword) fun c hc => (hrest c hc).endsPath

/-- The digits of a number are gathered. -/
theorem outcome_numberRest (read : List Char) {cs : List Char} (h : ∀ c ∈ cs, c.isDigit = true)
    (rest : List Char) :
    outcome (.number read frames slot) (cs ++ rest) =
      outcome (.number (cs.reverse ++ read) frames slot) rest := by
  induction cs generalizing read with
  | nil => rfl
  | cons c cs ih =>
    have hextend : (State.number read frames slot).extend? c =
        some (.number (c :: read) frames slot) := if_pos (by simp [isNumeral, h c (by simp)])
    rw [List.cons_append, outcome_extend hextend, ih (c :: read) fun d hd => h d (by simp [hd])]
    simp

/-- A whole number is read where a value is awaited. -/
theorem outcome_renderInt (ha : Awaits p frames slot role) (n : Json.Whole) {rest : List Char}
    (hrest : EndsWord rest) :
    outcome (.at p) (Json.renderInt n.val ++ rest) =
      outcome (.at (supply (.number (.whole n)) frames slot)) rest := by
  obtain ⟨c, cs, hcs, hc, hdigits⟩ := Json.exists_renderInt n.val
  have hread : (cs.reverse ++ [c]).reverse = Json.renderInt n.val := by rw [hcs]; simp
  rw [hcs, List.cons_append, outcome_advance (ha.advance_number hc), outcome_numberRest [c] hdigits]
  refine outcome_settle (fun d hd => if_neg ?_) fun next => ?_
  · rw [(hrest d hd).not_isNumeral]
    exact Bool.false_ne_true
  · simp only [State.settle, hread, Json.ofText?_renderInt]

/-- A string is read where a value is awaited, in either kind of quotes. -/
theorem outcome_string (ha : Awaits p frames slot role) {quote : Char}
    (hquote : isQuote quote = true)
    {text : String} {s : List Char} (h : Quoted quote text.toList s) (rest : List Char) :
    outcome (.at p) (quote :: s ++ [quote] ++ rest) =
      outcome (.at (supply (.string text) frames slot)) rest := by
  have hbegin : p.advance quote = goOn (.string quote "" .plain (.value frames) slot) := by
    rw [ha.begins quote (.inl hquote)]
    exact if_pos hquote
  have hread := outcome_quoted hquote (.value frames) slot h "" rest
  rw [List.cons_append, List.cons_append, List.append_assoc, outcome_advance hbegin]
  rw [String.ofList_toList, String.empty_append] at hread
  exact hread

/-- A list or an object is one container more. -/
theorem outcome_openLiteral {c : Char} {q : Place} (h : p.advance c = openLiteral frames slot q)
    (rest : List Char) :
    outcome (.at p) (c :: rest) =
      within (slot.depth + frames.length + 1) (outcome (.at q) rest) := by
  unfold openLiteral at h
  unfold within
  split at h
  · next hroom => rw [if_pos (Nat.succ_le_of_lt hroom), outcome_advance h]
  · next hfull => rw [if_neg fun hle => hfull (Nat.lt_of_succ_le hle), outcome_refused h]

end Awaits

/-! ### Literals -/

/-- What comes of a literal, or of a part of one, that is spelled `s`. -/
def Literal.Reads (s : List Char) : Literal → Prop
  | .value v => ∀ {p frames slot role}, Awaits p frames slot role →
      slot.depth + frames.length ≤ maxDepth → ∀ {rest}, EndsWord rest →
        outcome (.at p) (s ++ rest) = within (slot.depth + frames.length + v.nesting)
          (outcome (.at (supply v frames slot)) rest)
  | .items vs => ∀ before frames slot, slot.depth + frames.length + 1 ≤ maxDepth → ∀ rest,
      outcome (.at (.listNext before frames slot)) (s ++ rest) =
        within (slot.depth + frames.length + 1 + Json.nestingItems vs)
          (outcome (.at (supply (.array (before.reverse ++ vs)) frames slot)) rest)
  | .member key v => ∀ before frames slot, slot.depth + frames.length + 1 ≤ maxDepth →
      ∀ {rest}, EndsWord rest →
        outcome (.at (.objectNext before frames slot)) (s ++ rest) =
          within (slot.depth + frames.length + 1 + v.nesting)
            (outcome (.at (.objectMore (before.insert key v) frames slot)) rest)
  | .members ms => ∀ before frames slot, slot.depth + frames.length + 1 ≤ maxDepth → ∀ rest,
      outcome (.at (.objectNext before frames slot)) (s ++ rest) =
        within (slot.depth + frames.length + 1 + Json.nestingMembers ms)
          (outcome (.at (supply (.object (before.merge ms)) frames slot)) rest)

/-- An element with blanks around it, up to the comma or the bracket behind it. -/
theorem outcome_item {v : Json} {b s b' : List Char} (hb : Blanks b)
    (h : Literal.Reads s (.value v)) (hb' : Blanks b') (before : List Json) {frames : Frames}
    {slot : Slot} (hroom : slot.depth + frames.length + 1 ≤ maxDepth) {c : Char} (hc : Delimits c)
    (rest : List Char) :
    outcome (.at (.listNext before frames slot)) (b ++ s ++ b' ++ c :: rest) =
      within (slot.depth + frames.length + 1 + v.nesting)
        (outcome (.at (.listMore (v :: before) frames slot)) (c :: rest)) := by
  have ha := awaits_listNext before frames slot
  rw [List.append_assoc, List.append_assoc, outcome_blanks ha.skips hb,
    h ha hroom (endsWord_blanks hb' hc rest), supply, outcome_blanks rfl hb']
  rfl

/-- A key, up to the blanks or the colon behind it. -/
theorem outcome_key {key : String} {k : List Char} (h : SpellsKey key k) (before : Json.Fields)
    (frames : Frames) (slot : Slot) {rest : List Char} (hrest : EndsWord rest) :
    outcome (.at (.objectNext before frames slot)) (k ++ rest) =
      outcome (.at (.colon before key frames slot)) rest := by
  cases h with
  | @quoted quote _ s hquote h =>
    have hbegin : (Place.objectNext before frames slot).advance quote =
        goOn (.string quote "" .plain (.key before frames) slot) := by
      have hblank : isBlank quote = false := (isVisible_of_isQuote hquote).not_isBlank
      have hbrace : quote ≠ '}' := ne_of_class hquote rfl
      simp [Place.advance, hblank, hbrace, hquote]
    have hread := outcome_quoted hquote (.key before frames) slot h "" rest
    rw [String.ofList_toList, String.empty_append] at hread
    rw [List.cons_append, List.cons_append, List.append_assoc, outcome_advance hbegin]
    exact hread
  | path h =>
    have hbegin : ∀ c, isIdentStart c = true → (Place.objectNext before frames slot).advance c =
        .ok (.ident [c] (.key before frames slot)) := by
      intro c hc
      have hblank : isBlank c = false := (isVisible_of_isIdentStart hc).not_isBlank
      have hbrace : c ≠ '}' := ne_of_class hc rfl
      have hquote : isQuote c = false := not_isQuote rfl rfl hc
      simp [Place.advance, hblank, hbrace, hquote, hc]
    exact outcome_path hbegin h rfl fun c hc => (hrest c hc).endsPath

/-- A member with blanks around it, up to the comma or the brace behind it. -/
theorem outcome_member {key : String} {v : Json} {b s b' : List Char} (hb : Blanks b)
    (h : Literal.Reads s (.member key v)) (hb' : Blanks b') (before : Json.Fields) {frames : Frames}
    {slot : Slot} (hroom : slot.depth + frames.length + 1 ≤ maxDepth) {c : Char} (hc : Delimits c)
    (rest : List Char) :
    outcome (.at (.objectNext before frames slot)) (b ++ s ++ b' ++ c :: rest) =
      within (slot.depth + frames.length + 1 + v.nesting)
        (outcome (.at (.objectMore (before.insert key v) frames slot)) (c :: rest)) := by
  rw [List.append_assoc, List.append_assoc, outcome_blanks rfl hb,
    h before frames slot hroom (endsWord_blanks hb' hc rest), outcome_blanks rfl hb']

/-- A literal that is no container. -/
theorem Literal.reads_of_flat {v : Json} {s : List Char} (hflat : v.nesting = 0)
    (h : ∀ {p frames slot role}, Awaits p frames slot role → ∀ {rest}, EndsWord rest →
      outcome (.at p) (s ++ rest) = outcome (.at (supply v frames slot)) rest) :
    Literal.Reads s (.value v) := by
  intro p frames slot role ha hroom rest hrest
  rw [hflat, Nat.add_zero, within_of_le hroom, h ha hrest]

/-- Behind its bracket, a list is read as its elements. -/
theorem Literal.Reads.array {items : List Json} {s : List Char}
    (h : Literal.Reads s (.items items)) : Literal.Reads ('[' :: s) (.value (.array items)) := by
  intro p frames slot role ha hroom rest hrest
  have hopen : p.advance '[' = openLiteral frames slot (.listNext [] frames slot) :=
    ha.begins '[' (by simp [BeginsLiteral])
  rw [List.cons_append, outcome_openLiteral hopen,
    within_congr fun hroom => h [] frames slot hroom rest, within_add, Json.nesting,
    Nat.add_right_comm, Nat.add_assoc]
  rfl

/-- Behind its brace, an object is read as its members if no key stands twice. -/
theorem Literal.Reads.object {members : Json.Fields} {s : List Char} (hkeys : members.keys.Nodup)
    (h : Literal.Reads s (.members members)) :
    Literal.Reads ('{' :: s) (.value (.object members)) := by
  intro p frames slot role ha hroom rest hrest
  have hopen : p.advance '{' = openLiteral frames slot (.objectNext [] frames slot) :=
    ha.begins '{' (by simp [BeginsLiteral])
  have hmerge : Json.Fields.merge [] members = members :=
    Json.Fields.merge_of_nodup (by simpa [Json.Fields.keys] using hkeys)
  rw [List.cons_append, outcome_openLiteral hopen,
    within_congr fun hroom => h [] frames slot hroom rest, within_add, hmerge, Json.nesting,
    Nat.add_right_comm, Nat.add_assoc]

/-- **Literals are read back** from each of their spellings, with any text behind them. -/
theorem Literal.Spells.reads {part : Literal} {s : List Char} (h : part.Spells s) :
    part.Reads s := by
  -- The places of the parts are not those of the whole, so `Reads` speaks of all of them.
  induction h with
  | null => exact Literal.reads_of_flat rfl fun ha _ hrest => outcome_word ha "null" rfl hrest
  | yes => exact Literal.reads_of_flat rfl fun ha _ hrest => outcome_word ha "true" rfl hrest
  | no => exact Literal.reads_of_flat rfl fun ha _ hrest => outcome_word ha "false" rfl hrest
  | number n => exact Literal.reads_of_flat rfl fun ha _ hrest => outcome_renderInt ha n hrest
  | string hquote h =>
    exact Literal.reads_of_flat rfl fun ha rest _ => outcome_string ha hquote h rest
  | array h ih => exact ih.array
  | object hkeys h ih => exact ih.object hkeys
  | noItem hb =>
    intro before frames slot hroom rest
    have hclose : (Place.listNext before frames slot).advance ']' =
        goOn (supply (.array before.reverse) frames slot) := rfl
    rw [Json.nestingItems, Nat.add_zero, within_of_le hroom, List.append_assoc,
      outcome_blanks rfl hb, List.singleton_append, outcome_advance hclose, List.append_nil]
  | @lastItem v b s b' hb h hb' ih =>
    intro before frames slot hroom rest
    have hclose : (Place.listMore (v :: before) frames slot).advance ']' =
        goOn (supply (.array (v :: before).reverse) frames slot) := rfl
    rw [List.append_assoc, List.singleton_append,
      outcome_item hb ih hb' before hroom (by simp [Delimits]), outcome_advance hclose]
    simp [Json.nestingItems]
  | @item v items b s b' rest hb h hb' hrest ih ihrest =>
    intro before frames slot hroom tail
    have hcomma : (Place.listMore (v :: before) frames slot).advance ',' =
        goOn (.listNext (v :: before) frames slot) := rfl
    rw [List.append_assoc, List.cons_append,
      outcome_item hb ih hb' before hroom (by simp [Delimits]), outcome_advance hcomma,
      ihrest (v :: before) frames slot hroom tail, within_within, Json.nestingItems]
    simp [Nat.add_max_add_left]
  | @member key v k b b' s hkey hb hb' h ih =>
    intro before frames slot hroom rest hrest
    have hcolon : (Place.colon before key frames slot).advance ':' =
        goOn (.memberValue before key frames slot) := rfl
    have hvalue := ih (awaits_memberValue before key frames slot) hroom hrest
    rw [List.append_assoc, List.append_assoc, List.append_assoc, List.cons_append,
      outcome_key hkey before frames slot (endsWord_blanks hb (by simp [Delimits]) _),
      outcome_blanks rfl hb, outcome_advance hcolon, outcome_blanks rfl hb']
    exact hvalue
  | noMember hb =>
    intro before frames slot hroom rest
    have hclose : (Place.objectNext before frames slot).advance '}' =
        goOn (supply (.object before) frames slot) := rfl
    rw [Json.nestingMembers, Nat.add_zero, within_of_le hroom, List.append_assoc,
      outcome_blanks rfl hb, List.singleton_append, outcome_advance hclose]
    rfl
  | @lastMember key v b s b' hb h hb' ih =>
    intro before frames slot hroom rest
    have hclose : (Place.objectMore (before.insert key v) frames slot).advance '}' =
        goOn (supply (.object (before.insert key v)) frames slot) := rfl
    rw [List.append_assoc, List.singleton_append,
      outcome_member hb ih hb' before hroom (by simp [Delimits]), outcome_advance hclose]
    simp [Json.nestingMembers, Json.Fields.merge]
  | @more key v members b s b' rest hb h hb' hrest ih ihrest =>
    intro before frames slot hroom tail
    have hcomma : (Place.objectMore (before.insert key v) frames slot).advance ',' =
        goOn (.objectNext (before.insert key v) frames slot) := rfl
    rw [List.append_assoc, List.cons_append,
      outcome_member hb ih hb' before hroom (by simp [Delimits]), outcome_advance hcomma,
      ihrest (before.insert key v) frames slot hroom tail, within_within, Json.nestingMembers]
    simp [Nat.add_max_add_left, Json.Fields.merge]

/-! ### Values in braces -/

/-- A value, up to the blanks or the brace behind it. -/
theorem outcome_value {p : Place} {slot : Slot} (ha : Awaits p [] slot (.value slot)) {v : Value}
    {s : List Char} (h : SpellsValue v s) (hroom : slot.depth ≤ maxDepth) {rest : List Char}
    (hrest : EndsWord rest) :
    outcome (.at p) (s ++ rest) =
      within (slot.depth + v.nesting) (outcome (.at (.valueEnd v slot)) rest) := by
  cases h with
  | literal h => exact h.reads ha hroom hrest
  | @ident path h hword =>
    have hnone : wordLiteral? path = none := by
      simp only [literalWords, List.mem_cons, List.not_mem_nil, or_false, not_or] at hword
      simp [wordLiteral?, hword]
    rw [Value.nesting, Nat.add_zero, within_of_le hroom]
    refine outcome_path (fun _ hc => ha.advance_ident hc) h ?_ fun c hc => (hrest c hc).endsPath
    simp [IdentRole.supply, hnone]

/-- A value with blanks around it, and the brace behind it. -/
theorem outcome_braced {p : Place} {slot : Slot} (ha : Awaits p [] slot (.value slot)) {v : Value}
    {b s b' : List Char} (hb : Blanks b) (h : SpellsValue v s) (hb' : Blanks b')
    (hroom : slot.depth ≤ maxDepth) (rest : List Char) :
    outcome (.at p) (b ++ s ++ b' ++ '}' :: rest) =
      within (slot.depth + v.nesting) (outcome (.at (slot.supply v)) rest) := by
  have hclose : (Place.valueEnd v slot).advance '}' = goOn (slot.supply v) := rfl
  rw [List.append_assoc, List.append_assoc, outcome_blanks ha.skips hb,
    outcome_value ha h hroom (endsWord_blanks hb' (by simp [Delimits]) rest),
    outcome_blanks rfl hb', outcome_advance hclose]

end AgentSurface.Jsx
