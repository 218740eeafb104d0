import Mathlib.Data.List.Basic
import AgentSurface.Proofs.Jsx.Spelling
import AgentSurface.Proofs.Json.Numeral

/-!
# Jsx — where the pieces of a source lead

`outcome s source` is what comes of a source that is read from the state `s` on, to its end.  Each
lemma here is about one piece of a source with a rest behind it: the outcome is that of the rest,
read from the place behind the piece.  So readings are put together by rewriting.

* `parse_of_outcome`: the nodes of a source, and the fault of one that is too deep, are told by its
  outcome.
* `outcome_name`, `outcome_path`, `outcome_quoted`, `outcome_renderInt`, `outcome_comment`,
  `outcome_text`: the pieces.

`within depth` is what a reading at that depth adds: there is none beyond `maxDepth`.
-/

namespace AgentSurface.Jsx

open Text (isBlank)

/-- What comes of a source, read from a state on. -/
def outcome (s : State) : List Char → Except Refusal (List Node)
  | [] => s.finish
  | c :: rest =>
    match s.step c with
    | .ok next => outcome next rest
    | .error refusal => .error refusal

/-- The outcome, unless the depth is beyond the limit. -/
def within (depth : Nat) (o : Except Refusal (List Node)) : Except Refusal (List Node) :=
  if depth ≤ maxDepth then o else .error .tooDeep

/-- A depth that is not too great leaves the outcome. -/
theorem within_of_le {depth : Nat} (h : depth ≤ maxDepth) (o : Except Refusal (List Node)) :
    within depth o = o := if_pos h

/-- Of two depths the greater one counts. -/
theorem within_within (a b : Nat) (o : Except Refusal (List Node)) :
    within a (within b o) = within (max a b) o := by
  unfold within
  by_cases ha : a ≤ maxDepth
  · simp only [Nat.max_le, ha, true_and, if_true]
  · simp only [Nat.max_le, ha, false_and, if_false]

/-- Of two limits the deeper one counts. -/
theorem within_add (a b : Nat) (o : Except Refusal (List Node)) :
    within a (within (a + b) o) = within (a + b) o := by
  rw [within_within, Nat.max_eq_right (Nat.le_add_right a b)]

/-- Outcomes are compared only where the depth is not too great. -/
theorem within_congr {depth : Nat} {o o' : Except Refusal (List Node)}
    (h : depth ≤ maxDepth → o = o') : within depth o = within depth o' := by
  unfold within
  split
  · next hle => exact h hle
  · rfl

/-! ### The outcome of a source is what `parse` gives -/

/-- The outcome of a source is that of the machine fed with it. -/
theorem outcome_eq_feed (s : State) (source : List Char) :
    outcome s source =
      match Text.feed State.step s source with
      | .ok last => last.finish
      | .error stop => .error stop.reason := by
  induction source generalizing s with
  | nil => rfl
  | cons c rest ih =>
    rw [outcome, Text.feed]
    cases s.step c with
    | ok next => exact ih next
    | error refusal => rfl

/-- A source is parsed as its outcome says. -/
theorem parse_of_ok {source : List Char} {nodes : List Node}
    (h : outcome .initial source = .ok nodes) : parse source = .ok nodes := by
  rw [outcome_eq_feed] at h
  unfold parse
  cases hfeed : Text.feed State.step .initial source with
  | error stop => simp [hfeed] at h
  | ok last =>
    simp only [hfeed] at h ⊢
    rw [h]

/-- A source that goes too deep is refused with the limit. -/
theorem parse_of_tooDeep {source : List Char} (h : outcome .initial source = .error .tooDeep) :
    parse source = .error (.tooDeep maxDepth) := by
  rw [outcome_eq_feed] at h
  unfold parse
  cases hfeed : Text.feed State.step .initial source with
  | error stop =>
    simp only [hfeed] at h ⊢
    rw [Except.error.inj h]
    rfl
  | ok last =>
    simp only [hfeed] at h ⊢
    rw [h]
    rfl

/-- Where the outcome depends on the depth alone, so does parsing. -/
theorem parse_of_outcome {source : List Char} {nodes : List Node} {depth : Nat}
    (h : outcome .initial source = within depth (.ok nodes)) :
    parse source = if depth ≤ maxDepth then .ok nodes else .error (.tooDeep maxDepth) := by
  by_cases hdepth : depth ≤ maxDepth
  · rw [if_pos hdepth]
    exact parse_of_ok (h.trans (if_pos hdepth))
  · rw [if_neg hdepth]
    exact parse_of_tooDeep (h.trans (if_neg hdepth))

/-! ### One character, and the end of a piece -/

/-- A character that goes on with a piece belongs to it. -/
theorem outcome_extend {s longer : State} {c : Char} (h : s.extend? c = some longer)
    (rest : List Char) : outcome s (c :: rest) = outcome longer rest := by
  rw [outcome, State.step, h]

/-- A character that moves the place leads to the outcome from there. -/
theorem outcome_advance {p : Place} {c : Char} {next : State} (h : p.advance c = .ok next)
    (rest : List Char) : outcome (.at p) (c :: rest) = outcome next rest := by
  have hstep : (State.at p).step c = .ok next := h
  rw [outcome, hstep]

/-- Behind a character that is refused, nothing counts. -/
theorem outcome_refused {p : Place} {c : Char} {refusal : Refusal}
    (h : p.advance c = .error refusal) (rest : List Char) :
    outcome (.at p) (c :: rest) = .error refusal := by
  have hstep : (State.at p).step c = .error refusal := h
  rw [outcome, hstep]

/-- Places that do the same with the next character have the same outcome. -/
theorem outcome_congr {p q : Place} {c : Char} (h : p.advance c = q.advance c) (rest : List Char) :
    outcome (.at p) (c :: rest) = outcome (.at q) (c :: rest) := by
  have hstep : (State.at p).step c = (State.at q).step c := h
  rw [outcome, outcome, hstep]

/-- A piece is over where the next character does not belong to it, or at the end of the source. -/
theorem outcome_settle {s : State} {p : Place} {rest : List Char}
    (hrest : ∀ c ∈ rest.head?, s.extend? c = none) (hsettle : ∀ next, s.settle next = .ok p) :
    outcome s rest = outcome (.at p) rest := by
  cases rest with
  | nil =>
    have hfinish : s.finish = (State.at p).finish := by
      simp only [State.finish, hsettle]
      rfl
    exact hfinish
  | cons c rest =>
    have hstep : s.step c = (State.at p).step c := by
      simp only [State.step, hrest c rfl, hsettle]
      rfl
    rw [outcome, outcome, hstep]

/-! ### Blanks -/

/-- At these places blanks stand for nothing. -/
def Place.skipsBlanks : Place → Bool
  | .closing _ | .closingEnd _ _ | .tag _ _ | .attribute _ _ _ | .attributeValue _ _ _
  | .value _ _ _ | .brace _ | .commentEnd _ | .valueEnd _ _ | .listNext _ _ _ | .listMore _ _ _
  | .objectNext _ _ _ | .colon _ _ _ _ | .memberValue _ _ _ _ | .objectMore _ _ _ => true
  | .content _ | .angle _ | .slashEnd _ _ | .attributeText _ _ _ _ _ | .slash _ | .comment _ _
  | .string _ _ _ _ _ => false

theorem Place.advance_blank {p : Place} (hp : p.skipsBlanks = true) {c : Char}
    (hc : isBlank c = true) : p.advance c = goOn p := by
  cases p with
  | content | angle | slashEnd | attributeText | slash | comment | string =>
    exact absurd hp Bool.false_ne_true
  | _ => exact if_pos hc

/-- Blanks change nothing where they may stand. -/
theorem outcome_blanks {p : Place} (hp : p.skipsBlanks = true) {b : List Char} (hb : Blanks b)
    (rest : List Char) : outcome (.at p) (b ++ rest) = outcome (.at p) rest := by
  induction b with
  | nil => rfl
  | cons c b ih =>
    rw [List.cons_append, outcome_advance (Place.advance_blank hp (hb c (by simp)))]
    exact ih fun d hd => hb d (by simp [hd])

/-! ### Names -/

/-- The characters of a name are gathered. -/
theorem outcome_nameRest (role : NameRole) (read : List Char) {cs : List Char}
    (h : ∀ c ∈ cs, isNameRest c = true) (rest : List Char) :
    outcome (.name read role) (cs ++ rest) = outcome (.name (cs.reverse ++ read) role) rest := by
  induction cs generalizing read with
  | nil => rfl
  | cons c cs ih =>
    have hextend : (State.name read role).extend? c = some (.name (c :: read) role) :=
      if_pos (h c (by simp))
    rw [List.cons_append, outcome_extend hextend, ih (c :: read) fun d hd => h d (by simp [hd])]
    simp

/-- A name is read up to the first character that is not part of it. -/
theorem outcome_name {p : Place} {role : NameRole}
    (hp : ∀ c, isNameStart c = true → p.advance c = beginName role c) {name : String}
    (hname : IsName name.toList) {rest : List Char}
    (hrest : ∀ c ∈ rest.head?, isNameRest c = false) :
    outcome (.at p) (name.toList ++ rest) = outcome (.at (role.supply name)) rest := by
  obtain ⟨c, cs, hcs, hc, hall⟩ := hname.chars
  have hbegin : p.advance c = .ok (.name [c] role) := (hp c hc).trans (if_pos hc)
  have hlast : name.toList.reverse.head? ≠ some '.' := by
    rw [List.head?_reverse]
    exact hname.last
  have hread : cs.reverse ++ [c] = name.toList.reverse := by rw [hcs, List.reverse_cons]
  rw [hcs, List.cons_append, outcome_advance hbegin, outcome_nameRest role [c] hall, hread]
  refine outcome_settle (fun d hd => if_neg ?_) fun next => ?_
  · rw [hrest d hd]
    exact Bool.false_ne_true
  · rw [State.settle, if_neg hlast, List.reverse_reverse, String.ofList_toList]

/-! ### Paths -/

/-- Behind a character that is no dot, letters and digits go on an identifier. -/
theorem outcome_identRest (role : IdentRole) {read cs : List Char} (hread : read.head? ≠ some '.')
    (h : ∀ c ∈ cs, isIdentStart c = true ∨ c.isDigit = true) (rest : List Char) :
    outcome (.ident read role) (cs ++ rest) = outcome (.ident (cs.reverse ++ read) role) rest := by
  induction cs generalizing read with
  | nil => rfl
  | cons c cs ih =>
    have hdot : c ≠ '.' := by
      rintro rfl
      exact absurd (h '.' (by simp)) (by decide)
    have hextend : (State.ident read role).extend? c = some (.ident (c :: read) role) := by
      have hbelongs :
          (isIdentStart c || (read.head? != some '.' && (c.isDigit || c == '.'))) = true := by
        rcases h c (by simp) with hc | hc <;> simp [hc, hread]
      exact if_pos hbelongs
    rw [List.cons_append, outcome_extend hextend, ih (by simpa using hdot)
      fun d hd => h d (by simp [hd])]
    simp

theorem IsIdentifier.ne_dot {s : List Char} (h : IsIdentifier s) : '.' ∉ s := by
  obtain ⟨c, rest, rfl, hc, hrest⟩ := h
  intro hmem
  rcases List.mem_cons.1 hmem with rfl | hmem
  · exact absurd hc (by decide)
  · exact absurd (hrest '.' hmem) (by decide)

/-- What was read last before a point is no point, so no segment is empty. -/
theorem IsIdentifier.head?_reverse {s : List Char} (h : IsIdentifier s) (read : List Char) :
    (s.reverse ++ read).head? ≠ some '.' := by
  have hne : s.reverse ≠ [] := by
    obtain ⟨c, rest, rfl, -, -⟩ := h
    simp
  rw [List.head?_append_of_ne_nil _ hne, List.head?_reverse]
  exact fun hlast => h.ne_dot (List.mem_of_getLast? hlast)

/-- An identifier is gathered behind what was read before. -/
theorem outcome_identifier (role : IdentRole) {c : Char} {cs : List Char}
    (h : IsIdentifier (c :: cs)) (read rest : List Char) :
    outcome (.ident (c :: read) role) (cs ++ rest) =
      outcome (.ident ((c :: cs).reverse ++ read) role) rest := by
  have hdot : (c :: read).head? ≠ some '.' := by
    rintro hc
    exact h.ne_dot (by simp [Option.some.inj hc])
  obtain ⟨c', cs', heq, -, hcs⟩ := h
  obtain ⟨rfl, rfl⟩ := List.cons.inj heq
  rw [outcome_identRest role hdot hcs]
  simp

/-- A path begins an identifier, and the rest of it is read. -/
theorem IsPath.exists_cons (role : IdentRole) {path : List Char} (h : IsPath path) :
    ∃ c cs, path = c :: cs ∧ isIdentStart c = true ∧ path.reverse.head? ≠ some '.' ∧
      ∀ read rest, outcome (.ident (c :: read) role) (cs ++ rest) =
        outcome (.ident (path.reverse ++ read) role) rest := by
  induction h with
  | @one s hs =>
    obtain ⟨c, cs, rfl, hc, -⟩ := id hs
    exact ⟨c, cs, rfl, hc, by simpa using hs.head?_reverse [], outcome_identifier role hs⟩
  | @dot s path hs hpath ih =>
    obtain ⟨c, cs, rfl, hc, -⟩ := id hs
    obtain ⟨c', cs', rfl, hc', hlast, hrun⟩ := ih
    refine ⟨c, cs ++ '.' :: c' :: cs', rfl, hc, ?_, fun read rest => ?_⟩
    · rw [List.reverse_append, List.reverse_cons, List.append_assoc,
        List.head?_append_of_ne_nil _ (by simp)]
      exact hlast
    · have hdot : (State.ident ((c :: cs).reverse ++ read) role).extend? '.' =
          some (.ident ('.' :: ((c :: cs).reverse ++ read)) role) := by
        have hread := hs.head?_reverse read
        generalize (c :: cs).reverse ++ read = l at hread ⊢
        simp [State.extend?, hread]
      have hstart : (State.ident ('.' :: ((c :: cs).reverse ++ read)) role).extend? c' =
          some (.ident (c' :: '.' :: ((c :: cs).reverse ++ read)) role) := by
        simp [State.extend?, hc']
      calc outcome (.ident (c :: read) role) ((cs ++ '.' :: c' :: cs') ++ rest)
          = outcome (.ident ((c :: cs).reverse ++ read) role) ('.' :: c' :: (cs' ++ rest)) := by
            rw [List.append_assoc, outcome_identifier role hs]; rfl
        _ = outcome (.ident (c' :: '.' :: ((c :: cs).reverse ++ read)) role) (cs' ++ rest) := by
            rw [outcome_extend hdot, outcome_extend hstart]
        _ = outcome (.ident ((c :: cs ++ '.' :: c' :: cs').reverse ++ read) role) rest := by
            rw [hrun]; simp

/-- A path is read up to a character that neither goes on with its last name nor is a point. -/
theorem outcome_path {p : Place} {role : IdentRole}
    (hp : ∀ c, isIdentStart c = true → p.advance c = .ok (.ident [c] role)) {path : String}
    (h : IsPath path.toList) {q : Place} (hq : role.supply path = .ok q) {rest : List Char}
    (hrest : ∀ c ∈ rest.head?, isIdentStart c = false ∧ c.isDigit = false ∧ c ≠ '.') :
    outcome (.at p) (path.toList ++ rest) = outcome (.at q) rest := by
  obtain ⟨c, cs, hcs, hc, hlast, hrun⟩ := h.exists_cons role
  rw [hcs, List.cons_append, outcome_advance (hp c hc), hrun, List.append_nil]
  refine outcome_settle (fun d hd => ?_) fun next => ?_
  · obtain ⟨hstart, hdigit, hdot⟩ := hrest d hd
    simp [State.extend?, hstart, hdigit, hdot]
  · rw [State.settle, if_neg hlast, List.reverse_reverse, String.ofList_toList, hq]

/-! ### Strings -/

theorem push_append (read : String) (c : Char) (text : List Char) :
    read.push c ++ String.ofList text = read ++ String.ofList (c :: text) := by
  simp [← String.toList_inj]

/-- The letter of an escape stands for one character. -/
theorem advance_escape {c meant : Char} (h : Escape c meant) (quote : Char) (read : String)
    (role : StringRole) (slot : Slot) :
    (Place.string quote read .backslash role slot).advance c =
      goOn (.string quote (read.push meant) .plain role slot) := by
  cases h with
  | feed | tab | carriage | backspace | formFeed => rfl
  | itself h =>
    simp only [List.mem_cons, List.not_mem_nil, or_false, not_or] at h
    simp [Place.advance, stringStep, h]

section Strings

variable {quote : Char} {role : StringRole} {slot : Slot}

theorem advance_backslash (hquote : isQuote quote = true) (read : String) :
    (Place.string quote read .plain role slot).advance '\\' =
      goOn (.string quote read .backslash role slot) := by
  have hne : '\\' ≠ quote := by rintro rfl; exact absurd hquote (by decide)
  simp [Place.advance, stringStep, hne]

/-- A `\u` escape stands for the character of its number, and for the replacement character if no
character has the number. -/
theorem outcome_code (hquote : isQuote quote = true) (read : String) {c₁ c₂ c₃ c₄ : Char}
    {d₁ d₂ d₃ d₄ : Nat} (h₁ : Text.hexDigit? c₁ = some d₁) (h₂ : Text.hexDigit? c₂ = some d₂)
    (h₃ : Text.hexDigit? c₃ = some d₃) (h₄ : Text.hexDigit? c₄ = some d₄) (rest : List Char) :
    outcome (.at (.string quote read .plain role slot))
        ('\\' :: 'u' :: c₁ :: c₂ :: c₃ :: c₄ :: rest) =
      outcome (.at (.string quote (read.push
        (if (((d₁ * 16 + d₂) * 16 + d₃) * 16 + d₄).isValidChar then
          Char.ofNat (((d₁ * 16 + d₂) * 16 + d₃) * 16 + d₄)
        else Text.Utf8.replacement)) .plain role slot)) rest := by
  have hu : (Place.string quote read .backslash role slot).advance 'u' =
      goOn (.string quote read (.hex 0 0) role slot) := rfl
  have hmore : ∀ {c d taken code}, Text.hexDigit? c = some d → taken < 3 →
      (Place.string quote read (.hex taken code) role slot).advance c =
        goOn (.string quote read (.hex (taken + 1) (code * 16 + d)) role slot) := by
    intro c d taken code hc htaken
    simp [Place.advance, stringStep, hc, htaken]
  have hlast : (Place.string quote read
        (.hex 3 ((d₁ * 16 + d₂) * 16 + d₃)) role slot).advance c₄ =
      goOn (.string quote (read.push
        (if (((d₁ * 16 + d₂) * 16 + d₃) * 16 + d₄).isValidChar then
          Char.ofNat (((d₁ * 16 + d₂) * 16 + d₃) * 16 + d₄)
        else Text.Utf8.replacement)) .plain role slot) := by
    simp [Place.advance, stringStep, h₄]
  rw [outcome_advance (advance_backslash hquote read), outcome_advance hu,
    outcome_advance (hmore h₁ (by decide)), outcome_advance (hmore h₂ (by decide)),
    outcome_advance (hmore h₃ (by decide))]
  simp only [Nat.zero_mul, Nat.zero_add]
  rw [outcome_advance hlast]

/-- A string is read up to its quote as the text that it spells. -/
theorem outcome_quoted (hquote : isQuote quote = true) (role : StringRole) (slot : Slot)
    {text s : List Char} (h : Quoted quote text s) (read : String) (rest : List Char) :
    outcome (.at (.string quote read .plain role slot)) (s ++ quote :: rest) =
      outcome (.at (role.supply (read ++ String.ofList text) slot)) rest := by
  induction h generalizing read with
  | done =>
    have hend : (Place.string quote read .plain role slot).advance quote =
        goOn (role.supply read slot) := if_pos rfl
    rw [List.nil_append, outcome_advance hend]
    simp
  | @plain c text s hc hback h ih =>
    have hplain : (Place.string quote read .plain role slot).advance c =
        goOn (.string quote (read.push c) .plain role slot) := (if_neg hc).trans (if_neg hback)
    rw [List.cons_append, outcome_advance hplain, ih, push_append]
  | escape hmeant h ih =>
    rw [List.cons_append, List.cons_append, outcome_advance (advance_backslash hquote read),
      outcome_advance (advance_escape hmeant quote read role slot), ih, push_append]
  | code h₁ h₂ h₃ h₄ hvalid h ih =>
    simp only [List.cons_append]
    rw [outcome_code hquote read h₁ h₂ h₃ h₄, if_pos hvalid, ih, push_append]

end Strings

/-- The text of an attribute has no escapes: it is read as it stands, up to the quote. -/
theorem outcome_attributeText {quote : Char} (name : String) (t : Tag) (site : Site)
    {text : List Char} (h : quote ∉ text) (read : String) (rest : List Char) :
    outcome (.at (.attributeText quote read name t site)) (text ++ quote :: rest) =
      outcome (.at (.tag (t.add name (.literal (.string (read ++ String.ofList text)))) site))
        rest := by
  induction text generalizing read with
  | nil =>
    have hend : (Place.attributeText quote read name t site).advance quote =
        goOn (.tag (t.add name (.literal (.string read))) site) := if_pos rfl
    rw [List.nil_append, outcome_advance hend]
    simp
  | cons c text ih =>
    obtain ⟨hc, htext⟩ := List.ne_and_not_mem_of_not_mem_cons h
    have hplain : (Place.attributeText quote read name t site).advance c =
        goOn (.attributeText quote (read.push c) name t site) := if_neg (Ne.symm hc)
    rw [List.cons_append, outcome_advance hplain, ih htext, push_append]

/-! ### Comments -/

/-- A comment ends at the first star with a slash behind it. -/
theorem outcome_comment (site : Site) {body : List Char} (hbody : ¬ ['*', '/'] <:+: body)
    {star : Bool} (hstar : star = true → body.head? ≠ some '/') (rest : List Char) :
    outcome (.at (.comment star site)) (body ++ '*' :: '/' :: rest) =
      outcome (.at (.commentEnd site)) rest := by
  induction body generalizing star with
  | nil =>
    have hfirst : (Place.comment star site).advance '*' = goOn (.comment true site) := by
      simp [Place.advance]
    have hlast : (Place.comment true site).advance '/' = goOn (.commentEnd site) := rfl
    rw [List.nil_append, outcome_advance hfirst, outcome_advance hlast]
  | cons c body ih =>
    have hmore : (Place.comment star site).advance c = goOn (.comment (c == '*') site) := by
      have hno : (star && c == '/') = false := by
        cases star
        · rfl
        · simpa using hstar rfl
      simp [Place.advance, hno]
    rw [List.cons_append, outcome_advance hmore]
    refine ih (fun hpair => hbody (hpair.trans (List.suffix_cons c body).isInfix)) ?_
    -- A slash behind a star would end the comment.
    rintro hc hslash
    obtain rfl : c = '*' := by simpa using hc
    obtain ⟨tail, rfl⟩ : ∃ tail, body = '/' :: tail := List.head?_eq_some_iff.1 hslash
    exact hbody ⟨[], tail, rfl⟩

/-! ### Text -/

/-- The characters of a text are gathered up to a tag or an expression. -/
theorem outcome_textRest (site : Site) (read : List Char) {text : List Char}
    (h : '<' ∉ text ∧ '{' ∉ text) (rest : List Char) :
    outcome (.text read site) (text ++ rest) =
      outcome (.text (text.reverse ++ read) site) rest := by
  induction text generalizing read with
  | nil => rfl
  | cons c text ih =>
    simp only [List.mem_cons, not_or] at h
    obtain ⟨⟨hangle, hangles⟩, hbrace, hbraces⟩ := h
    have hextend : (State.text read site).extend? c = some (.text (c :: read) site) := by
      simp [State.extend?, Ne.symm hangle, Ne.symm hbrace]
    rw [List.cons_append, outcome_extend hextend, ih (c :: read) ⟨hangles, hbraces⟩]
    simp

/-- A run of characters ends before the next node, or with the source. -/
def EndsText (rest : List Char) : Prop := ∀ c ∈ rest.head?, c = '<' ∨ c = '{'

/-- A text between tags is read as a whole. -/
theorem outcome_text (site : Site) {text : List Char} (hne : text ≠ [])
    (h : '<' ∉ text ∧ '{' ∉ text) {rest : List Char} (hrest : EndsText rest) :
    outcome (.at (.content site)) (text ++ rest) =
      outcome (.at (.content (site.addText text))) rest := by
  obtain ⟨c, cs, rfl⟩ := List.exists_cons_of_ne_nil hne
  have hbegin : (Place.content site).advance c = .ok (.text [c] site) := by
    simp only [List.mem_cons, not_or] at h
    simp [Place.advance, Ne.symm h.1.1, Ne.symm h.2.1]
  have hcs : '<' ∉ cs ∧ '{' ∉ cs := by
    simp only [List.mem_cons, not_or] at h
    exact ⟨h.1.2, h.2.2⟩
  rw [List.cons_append, outcome_advance hbegin, outcome_textRest site [c] hcs]
  refine outcome_settle (fun d hd => if_pos (hrest d hd)) fun next => ?_
  simp [State.settle]

end AgentSurface.Jsx
