import AgentSurface.Json.Printer
import AgentSurface.Proofs.Json.Atoms
import AgentSurface.Proofs.Json.Numeral
import AgentSurface.Proofs.Json.Writable

/-!
# Json — what is written is read

`Written` is the form of the texts that are written: it leaves open which blanks stand between the
parts of a value, so it has the texts without spaces and those that are indented.  A part of a value
is read up to the character that ends it, whatever containers are around it (`Written.readFrom`).

* `written_render`, `written_prettyAt`: what the printers write has the form.
* `Written.parse_eq`: a text of the form is read as the value that was written, unless the value is
  nested deeper than the reader goes.
-/

namespace AgentSurface.Json

/-! ### Written texts -/

/-- Blanks that may stand between the parts of a value. -/
def Spaces (s : List Char) : Prop := ∀ c ∈ s, isSpace c = true

/-- A value, or what stands behind the first of its elements or members. -/
inductive Phrase where
  | value (v : Json)
  | items (items : List Json)
  | members (members : Fields)

/-- The text of a phrase. -/
inductive Written : Phrase → List Char → Prop where
  | word {letters : List Char} {v : Json} (h : Word letters v) : Written (.value v) letters
  | number (w : Whole) : Written (.value (.number (.whole w))) (renderInt w.val)
  | string (s : String) : Written (.value (.string s)) (quote s)
  | emptyArray : Written (.value (.array [])) ['[', ']']
  | array {v : Json} {rest : List Json} {b s t : List Char} (hb : Spaces b)
    (h : Written (.value v) s) (hrest : Written (.items rest) t) :
    Written (.value (.array (v :: rest))) ('[' :: (b ++ s ++ t))
  | emptyObject : Written (.value (.object [])) ['{', '}']
  | object {key : String} {v : Json} {rest : Fields} {b b' s t : List Char} (hb : Spaces b)
    (hb' : Spaces b') (h : Written (.value v) s) (hrest : Written (.members rest) t) :
    Written (.value (.object ((key, v) :: rest))) ('{' :: (b ++ quote key ++ ':' :: (b' ++ s) ++ t))
  | noItem {b : List Char} (hb : Spaces b) : Written (.items []) (b ++ [']'])
  | item {v : Json} {rest : List Json} {b s t : List Char} (hb : Spaces b)
    (h : Written (.value v) s) (hrest : Written (.items rest) t) :
    Written (.items (v :: rest)) (',' :: (b ++ s ++ t))
  | noMember {b : List Char} (hb : Spaces b) : Written (.members []) (b ++ ['}'])
  | member {key : String} {v : Json} {rest : Fields} {b b' s t : List Char} (hb : Spaces b)
    (hb' : Spaces b') (h : Written (.value v) s) (hrest : Written (.members rest) t) :
    Written (.members ((key, v) :: rest)) (',' :: (b ++ quote key ++ ':' :: (b' ++ s) ++ t))

theorem spaces_nil : Spaces [] := List.forall_mem_nil _

/-- The line break and indentation of pretty text are blanks. -/
theorem spaces_newline (depth : Nat) : Spaces (newline depth) := by
  simp [Spaces, newline, isSpace]

theorem spaces_space : Spaces [' '] := List.forall_mem_singleton.2 rfl

mutual

/-- Compact text is one of the ways to write a value; the cases are those of the value. -/
theorem written_render : ∀ v : Json, v.Writable → Written (.value v) v.render
  | .null, _ => .word .nothing
  | .bool true, _ => .word .yes
  | .bool false, _ => .word .no
  | .number n, h => by
    obtain ⟨w, rfl⟩ := h
    exact .number w
  | .string s, _ => .string s
  | .array [], _ => .emptyArray
  | .array (v :: rest), h =>
    .array spaces_nil (written_render v h.1) (written_renderItems rest h.2)
  | .object [], _ => .emptyObject
  | .object ((key, v) :: rest), h => by
    have hobject : Written (.value (.object ((key, v) :: rest))) _ :=
      .object spaces_nil spaces_nil (written_render v h.2.1) (written_renderFields rest h.2.2)
    simpa [render] using hobject

theorem written_renderItems : ∀ items : List Json, Json.WritableItems items →
    Written (.items items) (renderItems items)
  | [], _ => .noItem spaces_nil
  | v :: rest, h => .item spaces_nil (written_render v h.1) (written_renderItems rest h.2)

theorem written_renderFields : ∀ members : List (String × Json), Json.WritableMembers members →
    Written (.members members) (renderFields members)
  | [], _ => .noMember spaces_nil
  | (key, v) :: rest, h => by
    have hmembers : Written (.members ((key, v) :: rest)) _ :=
      .member spaces_nil spaces_nil (written_render v h.1) (written_renderFields rest h.2)
    simpa [renderFields] using hmembers

end

mutual

/-- So is pretty text, at every indentation. -/
theorem written_prettyAt : ∀ (depth : Nat) (v : Json), v.Writable →
    Written (.value v) (v.prettyAt depth)
  | _, .null, _ => .word .nothing
  | _, .bool true, _ => .word .yes
  | _, .bool false, _ => .word .no
  | _, .number n, h => by
    obtain ⟨w, rfl⟩ := h
    exact .number w
  | _, .string s, _ => .string s
  | _, .array [], _ => .emptyArray
  | depth, .array (v :: rest), h =>
    .array (spaces_newline _) (written_prettyAt (depth + 1) v h.1)
      (written_prettyItems depth rest h.2)
  | _, .object [], _ => .emptyObject
  | depth, .object ((_, v) :: rest), h =>
    .object (spaces_newline _) spaces_space (written_prettyAt (depth + 1) v h.2.1)
      (written_prettyFields depth rest h.2.2)

theorem written_prettyItems : ∀ (depth : Nat) (items : List Json), Json.WritableItems items →
    Written (.items items) (prettyItems depth items)
  | _, [], _ => .noItem (spaces_newline _)
  | depth, v :: rest, h =>
    .item (spaces_newline _) (written_prettyAt (depth + 1) v h.1)
      (written_prettyItems depth rest h.2)

theorem written_prettyFields : ∀ (depth : Nat) (members : List (String × Json)),
    Json.WritableMembers members → Written (.members members) (prettyFields depth members)
  | _, [], _ => .noMember (spaces_newline _)
  | depth, (_, v) :: rest, h =>
    .member (spaces_newline _) spaces_space (written_prettyAt (depth + 1) v h.1)
      (written_prettyFields depth rest h.2)

end

/-! ### Atoms -/

/-- The value is read in its place, up to what ends it. -/
structure State.Settles (s : State) (v : Json) (context : Context) : Prop where
  step : ∀ c ∉ atomChars, s.step c = (context.supply v).step c
  finish : context = [] → s.finish = .ok v

/-- Behind a closed value nothing is left to settle. -/
theorem State.settles_supply (v : Json) (context : Context) :
    (context.supply v).Settles v context where
  step _ _ := rfl
  finish h := by rw [h]; rfl

/-- A number that may end is settled by whatever is no part of it. -/
theorem State.settles_number {numeral : Numeral} {n : Number} (context : Context)
    (hcomplete : numeral.complete = true) (hn : numeral.value? = some n) :
    (State.number numeral context).Settles (.number n) context where
  step c hc := by
    simp only [step, numberStep, Numeral.step_of_not_mem hc, hcomplete, if_true, afterNumber, hn]
    cases context with
    | nil => rfl
    | cons frame rest => cases frame <;> rfl
  finish h := by simp [h, State.finish, hcomplete, hn]

/-- What stands behind a value finds it read. -/
theorem State.Settles.feed {s : State} {v : Json} {context : Context} (h : s.Settles v context)
    {c : Char} (hc : c ∉ atomChars) (rest : List Char) :
    Text.feed State.step s (c :: rest) = Text.feed State.step (context.supply v) (c :: rest) := by
  rw [Text.feed, Text.feed, h.step c hc]

/-- A numeral that is read as a number leads the machine to it. -/
theorem feed_finish? {numeral : Numeral} {cs : List Char} {n : Number}
    (h : numeral.finish? cs = some n) (context : Context) :
    ∃ last, Text.feed State.step (.number numeral context) cs = .ok last ∧
      last.Settles (.number n) context := by
  induction cs generalizing numeral with
  | nil =>
    simp only [Numeral.finish?] at h
    split at h
    · next hcomplete => exact ⟨_, rfl, State.settles_number context hcomplete h⟩
    · cases h
  | cons c rest ih =>
    simp only [Numeral.finish?] at h
    split at h
    · next more hmore =>
      obtain ⟨last, hlast, hsettles⟩ := ih h
      refine ⟨last, Text.feed_cons_eq_ok_iff.2 ⟨.number more context, ?_, hlast⟩, hsettles⟩
      simp only [State.step, State.numberStep, hmore]
    · cases h

/-! ### Strings -/

/-- The digits that are written are single bytes, and are read as the number that they stand for. -/
theorem hexDigit?_hexDigit :
    ∀ k < 16, Text.hexDigit? (hexDigit k) = some k ∧ (hexDigit k).utf8Size = 1 := by
  decide

/-- A digit of an escape, with more to come. -/
theorem step_digit {c : Char} {d taken : Nat} (text : String) (role : StringRole) (n : Nat)
    (hd : Text.hexDigit? c = some d) (hsize : c.utf8Size = 1) (htaken : taken < 3) :
    State.step (.string text (.hex taken (some n) none) role) c =
      .ok (.string text (.hex (taken + 1) (some (n * 16 + d)) none) role) := by
  simp [State.step, State.stringStep, State.hexStep, hd, hsize,
    show taken + 1 < 4 by omega]

/-- A `\u` escape whose value is no surrogate is a character. -/
theorem step_lastDigit {c : Char} {d : Nat} (text : String) (role : StringRole) (n : Nat)
    (hd : Text.hexDigit? c = some d) (hsize : c.utf8Size = 1) (hcode : n * 16 + d < 0xD800) :
    State.step (.string text (.hex 3 (some n) none) role) c =
      .ok (.string (text.push (Char.ofNat (n * 16 + d))) .plain role) := by
  have htrail : State.isTrailSurrogate (n * 16 + d) = false := by
    simp [State.isTrailSurrogate]; omega
  have hlead : State.isLeadSurrogate (n * 16 + d) = false := by
    simp [State.isLeadSurrogate]; omega
  simp [State.step, State.stringStep, State.hexStep, State.closeHex, hd, hsize, htrail, hlead]

/-- An escape by four digits gives its control character. -/
theorem feed_code (text : String) (role : StringRole) {n : Nat} (hn : n < 0x20) :
    Text.feed State.step (.string text .plain role)
        ['\\', 'u', '0', '0', hexDigit (n / 16), hexDigit (n % 16)] =
      .ok (.string (text.push (Char.ofNat n)) .plain role) := by
  obtain ⟨hhigh, hhighSize⟩ := hexDigit?_hexDigit (n / 16) (by omega)
  obtain ⟨hlow, hlowSize⟩ := hexDigit?_hexDigit (n % 16) (by omega)
  have hcode : n / 16 * 16 + n % 16 = n := by omega
  have hopen : Text.feed State.step (.string text .plain role) ['\\', 'u', '0', '0'] =
      .ok (.string text (.hex 2 (some 0) none) role) := rfl
  rw [show ['\\', 'u', '0', '0', hexDigit (n / 16), hexDigit (n % 16)] =
    ['\\', 'u', '0', '0'] ++ [hexDigit (n / 16), hexDigit (n % 16)] from rfl,
    Text.feed_append hopen]
  refine Text.feed_cons_eq_ok_iff.2 ⟨_, step_digit text role 0 hhigh hhighSize (by omega), ?_⟩
  refine Text.feed_cons_eq_ok_iff.2 ⟨_, step_lastDigit text role _ hlow hlowSize (by omega), ?_⟩
  rw [Text.feed_nil, Nat.zero_mul, Nat.zero_add, hcode]

/-- A character is read as it is escaped. -/
theorem feed_escape (text : String) (role : StringRole) (c : Char) :
    Text.feed State.step (.string text .plain role) (escape c) =
      .ok (.string (text.push c) .plain role) := by
  unfold escape
  iterate 7
    split
    · next hc => subst hc; rfl
  split
  · next hc => simpa using feed_code text role hc
  · next hquote hslash _ _ _ _ _ hc =>
    simp [Text.feed, State.step, State.stringStep, hquote, hslash, hc]

/-- **A quoted string is read as that string**: each escape stands for the character it was written
for. -/
theorem feed_quote (role : StringRole) (s : String) :
    Text.feed State.step (.string "" .plain role) (s.toList.flatMap escape ++ ['"']) =
      .ok (State.closeString s role) := by
  have hbody : ∀ (cs : List Char) (text : String),
      Text.feed State.step (.string text .plain role) (cs.flatMap escape) =
        .ok (.string (text ++ String.ofList cs) .plain role) := by
    intro cs
    induction cs with
    | nil => simp
    | cons c cs ih =>
      intro text
      rw [List.flatMap_cons, Text.feed_append (feed_escape text role c), ih]
      simp [← String.toList_inj]
  rw [Text.feed_append (hbody s.toList "")]
  simp [Text.feed, State.step, State.stringStep]

/-- No atom begins with a blank or a bracket, so a list that is not closed at once begins with a
value. -/
theorem not_isSpace_of_mem_atomChars {c : Char} (h : c ∈ atomChars) :
    isSpace c = false ∧ c ≠ ']' := by
  have hall : (atomChars.all fun d => !isSpace d && d != ']') = true := by decide
  simpa using List.all_eq_true.1 hall c h

/-- A number begins where a value may begin. -/
theorem startValue_number {c : Char} {numeral : Numeral} (h : Numeral.start? c = some numeral)
    (context : Context) : State.startValue context c = .ok (.number numeral context) := by
  have hnone : (['"', '[', '{', 't', 'f', 'n'].all fun d => (Numeral.start? d).isNone) = true := by
    decide
  have hne : ∀ d ∈ ['"', '[', '{', 't', 'f', 'n'], c ≠ d := by
    rintro d hd rfl
    have hc := List.all_eq_true.1 hnone c hd
    rw [h] at hc
    cases hc
  unfold State.startValue
  rw [if_neg (hne _ (by decide)), if_neg (hne _ (by decide)), if_neg (hne _ (by decide)),
    if_neg (hne _ (by decide)), if_neg (hne _ (by decide)), if_neg (hne _ (by decide)), h]

/-! ### What is written is read -/

/-- What the machine does with the text of a phrase, whatever containers are around it. -/
def Phrase.ReadFrom (text : List Char) : Phrase → Prop
  | .value v => ∀ context : Context, context.length + v.nesting ≤ maxDepth →
      ∃ c cs first last, text = c :: cs ∧ isSpace c = false ∧ c ≠ ']' ∧
        State.startValue context c = .ok first ∧ Text.feed State.step first cs = .ok last ∧
        last.Settles v context
  | .items more => ∀ (before : List Json) (context : Context),
      context.length + 1 + nestingItems more ≤ maxDepth →
        Text.feed State.step (.listMore before context) text =
          .ok (context.supply (.array (before.reverse ++ more)))
  | .members more => ∀ (before : Fields) (context : Context),
      context.length + 1 + nestingMembers more ≤ maxDepth →
        Text.feed State.step (.objectMore before context) text =
          .ok (context.supply (.object (before.reverse ++ more)))

/-- The text begins with a character that ends a value. -/
def EndsValue (text : List Char) : Prop := ∃ c rest, text = c :: rest ∧ c ∉ atomChars

/-- Blanks before the end of a value end it. -/
theorem endsValue_append {b : List Char} (hb : Spaces b) {text : List Char} (h : EndsValue text) :
    EndsValue (b ++ text) := by
  cases b with
  | nil => exact h
  | cons c rest =>
    refine ⟨c, rest ++ text, rfl, fun hc => ?_⟩
    obtain ⟨hspace, -⟩ := not_isSpace_of_mem_atomChars hc
    exact Bool.false_ne_true (hspace.symm.trans (hb c List.mem_cons_self))

/-! ### Places between the parts of a value -/

/-- Blanks between parts are skipped. -/
theorem State.step_space {st : State} (hst : st.Between) {c : Char} (hc : isSpace c = true) :
    st.step c = .ok st := by
  cases st with
  | literal | number | string => exact hst.elim
  | _ => exact if_pos hc

/-- In a list that was opened, anything but its bracket begins an element. -/
theorem State.step_listStart {c : Char} (hc : isSpace c = false) (hbracket : c ≠ ']')
    (context : Context) :
    (State.listStart context).step c = startValue (.item [] :: context) c := by
  simp [step, hc, hbracket]

/-- Behind a comma, anything but a bracket begins an element. -/
theorem State.step_listNext {c : Char} (hc : isSpace c = false) (hbracket : c ≠ ']')
    (before : List Json) (context : Context) :
    (State.listNext before context).step c = startValue (.item before :: context) c := by
  simp [step, hc, hbracket]

/-- A list is opened where there is room. -/
theorem startValue_list {context : Context} (room : context.length < maxDepth) :
    State.startValue context '[' = .ok (.listStart context) := by
  simp [State.startValue, State.openContainer, room]

/-- An object is opened where there is room. -/
theorem startValue_object {context : Context} (room : context.length < maxDepth) :
    State.startValue context '{' = .ok (.objectStart context) := by
  simp [State.startValue, State.openContainer, room]

/-- Blanks leave the machine where it is. -/
theorem feed_spaces (st : State) {b : List Char} (hst : st.Between) (hb : Spaces b)
    (rest : List Char) :
    Text.feed State.step st (b ++ rest) = Text.feed State.step st rest := by
  refine Text.feed_append ?_ rest
  induction b with
  | nil => rfl
  | cons c b ih =>
    obtain ⟨hc, hb⟩ := List.forall_mem_cons.1 hb
    exact Text.feed_cons_eq_ok_iff.2 ⟨st, State.step_space hst hc, ih hb⟩

/-- Where a value can begin, the text of one leads to the value in its place. -/
theorem feed_place (st : State) {context : Context} {v : Json} {b s t : List Char}
    (hst : st.Between)
    (hstart : ∀ c, isSpace c = false → c ≠ ']' → st.step c = State.startValue context c)
    (hb : Spaces b) (hs : (Phrase.value v).ReadFrom s)
    (hroom : context.length + v.nesting ≤ maxDepth) (ht : EndsValue t) :
    Text.feed State.step st (b ++ s ++ t) = Text.feed State.step (context.supply v) t := by
  obtain ⟨c, cs, first, last, rfl, hc, hbracket, hfirst, hlast, hsettles⟩ := hs context hroom
  obtain ⟨d, rest, rfl, hd⟩ := ht
  have hvalue : Text.feed State.step st (c :: cs) = .ok last :=
    Text.feed_cons_eq_ok_iff.2 ⟨first, by rw [hstart c hc hbracket, hfirst], hlast⟩
  rw [List.append_assoc, feed_spaces st hst hb, Text.feed_append hvalue, hsettles.feed hd]

/-- Where a key can begin, the text of a member leads to the member in its place. -/
theorem feed_member (st : State) {before : Fields} {context : Context} {key : String} {v : Json}
    {b b' s t : List Char} (hst : st.Between)
    (hquote : st.step '"' = .ok (.string "" .plain (.key before context)))
    (hb : Spaces b) (hb' : Spaces b') (hs : (Phrase.value v).ReadFrom s)
    (hroom : context.length + 1 + v.nesting ≤ maxDepth) (ht : EndsValue t) :
    Text.feed State.step st (b ++ quote key ++ ':' :: (b' ++ s) ++ t) =
      Text.feed State.step (.objectMore ((key, v) :: before) context) t := by
  have hkey : Text.feed State.step st (quote key) = .ok (.colon before key context) :=
    Text.feed_cons_eq_ok_iff.2 ⟨_, hquote, feed_quote _ key⟩
  have hvalue := feed_place (.value (.member before key :: context)) trivial
    (fun c hc _ => if_neg (by simp [hc])) hb' hs (by simpa using hroom) ht
  rw [List.append_assoc, List.append_assoc, feed_spaces st hst hb, Text.feed_append hkey]
  exact hvalue

/-- What follows on an element ends it. -/
theorem Written.endsValue_items {rest : List Json} {text : List Char}
    (h : Written (.items rest) text) : EndsValue text := by
  cases h with
  | noItem hb => exact endsValue_append hb ⟨']', [], rfl, by decide⟩
  | item => exact ⟨',', _, rfl, by decide⟩

/-- What follows on a member ends it. -/
theorem Written.endsValue_members {rest : Fields} {text : List Char}
    (h : Written (.members rest) text) : EndsValue text := by
  cases h with
  | noMember hb => exact endsValue_append hb ⟨'}', [], rfl, by decide⟩
  | member => exact ⟨',', _, rfl, by decide⟩

/-- A word is read as what it stands for. -/
theorem readFrom_word {letters : List Char} {v : Json} (h : Word letters v) :
    (Phrase.value v).ReadFrom letters := by
  intro context _
  cases h <;>
    exact ⟨_, _, _, _, rfl, rfl, by decide, rfl, rfl, State.settles_supply _ context⟩

/-- A whole number is read as itself. -/
theorem readFrom_number (w : Whole) :
    (Phrase.value (.number (.whole w))).ReadFrom (renderInt w.val) := by
  intro context _
  obtain ⟨c, cs, htext, hc, -⟩ := exists_renderInt w.val
  have hread := ofText?_renderInt w
  rw [htext] at hread ⊢
  obtain ⟨numeral, hstart, hfinish⟩ := Option.bind_eq_some_iff.1 hread
  obtain ⟨last, hlast, hsettles⟩ := feed_finish? hfinish context
  obtain ⟨hspace, hbracket⟩ :=
    not_isSpace_of_mem_atomChars (Numeral.mem_atomChars_of_start? hstart)
  exact ⟨c, cs, _, last, rfl, hspace, hbracket, startValue_number hstart context, hlast, hsettles⟩

/-- What is written is read, if the containers do not lie too deep. -/
theorem Written.readFrom {p : Phrase} {text : List Char} (h : Written p text) :
    p.ReadFrom text := by
  -- A container reads its first part in its place; the others follow behind it, and what was read
  -- before stands in reverse order.
  induction h with
  | word h => exact readFrom_word h
  | number w => exact readFrom_number w
  | string s =>
    intro context _
    exact ⟨'"', _, _, _, rfl, rfl, by decide, rfl, feed_quote _ s, State.settles_supply _ _⟩
  | emptyArray =>
    intro context hroom
    have hopen : context.length < maxDepth := by
      simp only [nesting, nestingItems] at hroom; omega
    exact ⟨'[', _, _, _, rfl, rfl, by decide, startValue_list hopen, rfl,
      State.settles_supply _ _⟩
  | @array v rest b s t hb _ hrest ih ihrest =>
    intro context hroom
    simp only [nesting, nestingItems] at hroom
    refine ⟨'[', _, .listStart context, _, rfl, rfl, by decide, startValue_list (by omega), ?_,
      State.settles_supply _ _⟩
    rw [feed_place (.listStart context) trivial
      (fun c hc hbracket => State.step_listStart hc hbracket context) hb ih (by simp; omega)
      hrest.endsValue_items]
    exact ihrest [v] context (by omega)
  | emptyObject =>
    intro context hroom
    have hopen : context.length < maxDepth := by
      simp only [nesting, nestingMembers] at hroom; omega
    exact ⟨'{', _, _, _, rfl, rfl, by decide, startValue_object hopen, rfl,
      State.settles_supply _ _⟩
  | @object key v rest b b' s t hb hb' _ hrest ih ihrest =>
    intro context hroom
    simp only [nesting, nestingMembers] at hroom
    refine ⟨'{', _, .objectStart context, _, rfl, rfl, by decide, startValue_object (by omega), ?_,
      State.settles_supply _ _⟩
    rw [feed_member (.objectStart context) trivial rfl hb hb' ih (by omega) hrest.endsValue_members]
    exact ihrest [(key, v)] context (by omega)
  | noItem hb =>
    intro before context _
    rw [feed_spaces (.listMore before context) trivial hb, List.append_nil]
    rfl
  | @item v rest b s t hb _ hrest ih ihrest =>
    intro before context hroom
    simp only [nestingItems] at hroom
    refine Text.feed_cons_eq_ok_iff.2 ⟨.listNext before context, rfl, ?_⟩
    rw [feed_place (.listNext before context) trivial
      (fun c hc hbracket => State.step_listNext hc hbracket before context) hb ih (by simp; omega)
      hrest.endsValue_items]
    have hmore := ihrest (v :: before) context (by omega)
    rw [List.reverse_cons, List.append_assoc, List.singleton_append] at hmore
    exact hmore
  | noMember hb =>
    intro before context _
    rw [feed_spaces (.objectMore before context) trivial hb, List.append_nil]
    rfl
  | @member key v rest b b' s t hb hb' _ hrest ih ihrest =>
    intro before context hroom
    simp only [nestingMembers] at hroom
    refine Text.feed_cons_eq_ok_iff.2 ⟨.objectNext before context, rfl, ?_⟩
    rw [feed_member (.objectNext before context) trivial rfl hb hb' ih (by omega)
      hrest.endsValue_members]
    have hmore := ihrest ((key, v) :: before) context (by omega)
    rw [List.reverse_cons, List.append_assoc, List.singleton_append] at hmore
    exact hmore

theorem Written.read_eq {v : Json} {text : List Char} (h : Written (.value v) text)
    (hdepth : v.nesting ≤ maxDepth) : read text = .ok v := by
  obtain ⟨c, cs, first, last, rfl, hc, -, hfirst, hlast, hsettles⟩ :=
    h.readFrom [] (by simpa using hdepth)
  have hstep : State.initial.step c = .ok first := (if_neg (by simp [hc])).trans hfirst
  have hfeed := Text.feed_cons_eq_ok_iff.2 ⟨first, hstep, hlast⟩
  rw [read, hfeed]
  simp [hsettles.finish rfl]

/-- **What is written is read back.**  A value whose numbers are whole is read from its text as it
was, unless it is nested deeper than the reader goes. -/
theorem Written.parse_eq {v : Json} {text : List Char} (h : Written (.value v) text)
    (hv : v.Writable) (hdepth : v.nesting ≤ maxDepth) : parse text = .ok v := by
  rw [parse, h.read_eq hdepth, Except.map, hv.distinctKeys.settled]

end AgentSurface.Json
