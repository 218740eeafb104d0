import AgentSurface.Proofs.Jsx.Literals
import AgentSurface.Proofs.Jsx.Prose

/-!
# Jsx — trees are read back

The pieces of a tag, its attributes and its children are put together: a node with any text behind
it leads to where the node is a child more, if the levels that it adds are within the limit.

* `SpellsAttributes.reads`, `Spells.reads`: from each place, all spellings are read as what they
  spell.
* `Spells.parse`: a whole source.
-/

namespace AgentSurface.Jsx

open Text (isBlank)

/-! ### Names in a tag -/

/-- What stands behind a name begins with a character that does not belong to it. -/
def EndsName (rest : List Char) : Prop := ∀ c ∈ rest.head?, isNameRest c = false

/-- A name is ended by a character that can not be part of it. -/
theorem endsName_cons {c : Char} (hc : isNameRest c = false) (rest : List Char) :
    EndsName (c :: rest) := fun _ hd => Option.some.inj hd ▸ hc

theorem endsName_blanks {b : List Char} (hb : Blanks b) {rest : List Char} (h : EndsName rest) :
    EndsName (b ++ rest) := by
  cases b with
  | nil => exact h
  | cons c b => exact endsName_cons (not_of_isBlank isVisible_of_isNameRest (hb c (by simp))) _

/-! ### Attributes -/

/-- In a tag, a character that begins a name begins an attribute. -/
theorem advance_tag_name (t : Tag) (site : Site) {c : Char} (hc : isNameStart c = true) :
    (Place.tag t site).advance c = beginName (.attribute t site) c := by
  have hslash : c ≠ '/' := ne_of_class hc rfl
  have hangle : c ≠ '>' := ne_of_class hc rfl
  simp [Place.advance, tagStep, (isVisible_of_isNameStart hc).not_isBlank, hslash, hangle]

/-- The attributes of a tag end before a slash or an angle. -/
def EndsTag (rest : List Char) : Prop := ∀ c ∈ rest.head?, c = '/' ∨ c = '>'

/-- A name is over before such a text, and behind its blanks there is no equals sign. -/
def FollowsName (rest : List Char) : Prop :=
  EndsName rest ∧ ∃ b x, rest = b ++ x ∧ Blanks b ∧ ∀ c ∈ x.head?, isBlank c = false ∧ c ≠ '='

/-- What follows on a name without a value is an attribute or the end of the tag, and no equals
sign. -/
theorem SpellsAttributes.followsName {attributes : List Attribute} {a : List Char}
    (h : SpellsAttributes true attributes a) {rest : List Char} (hrest : EndsTag rest) :
    FollowsName (a ++ rest) := by
  cases h with
  | done hb =>
    refine ⟨endsName_blanks hb fun c hc => ?_, a, rest, rfl, hb, fun c hc => ?_⟩
    · rcases hrest c hc with rfl | rfl <;> rfl
    · rcases hrest c hc with rfl | rfl <;> exact ⟨rfl, by decide⟩
  | @more _ named' name v attributes b s tail hb hgap hname hv h =>
    obtain ⟨c, cs, hcs, hc, -⟩ := hname.chars
    -- The blank that ends the name is the first of those before the next name.
    obtain ⟨d, b, rfl⟩ := List.exists_cons_of_ne_nil (hgap rfl)
    refine ⟨endsName_cons (not_of_isBlank isVisible_of_isNameRest (hb d (by simp))) _, d :: b,
      name.toList ++ s ++ tail ++ rest, by simp, hb, fun e he => ?_⟩
    rw [hcs] at he
    obtain rfl : c = e := Option.some.inj he
    exact ⟨(isVisible_of_isNameStart hc).not_isBlank, ne_of_class hc rfl⟩

/-- An attribute without a value is true. -/
theorem outcome_bare (name : String) (t : Tag) (site : Site) {rest : List Char}
    (h : FollowsName rest) :
    outcome (.at (.attribute name t site)) rest =
      outcome (.at (.tag (t.add name (.literal (.bool true))) site)) rest := by
  obtain ⟨-, b, x, rfl, hb, hx⟩ := h
  rw [outcome_blanks rfl hb, outcome_blanks rfl hb]
  cases x with
  | nil => rfl
  | cons c x =>
    obtain ⟨hblank, hequals⟩ := hx c rfl
    have hadvance : (Place.attribute name t site).advance c =
        (Place.tag (t.add name (.literal (.bool true))) site).advance c := by
      simp [Place.advance, hblank, hequals]
    exact outcome_congr hadvance x

/-- Whatever gives a value to an attribute ends its name. -/
theorem Assigns.endsName {v : Value} {named : Bool} {s : List Char} (h : Assigns v named s)
    {rest : List Char} (hrest : named = true → FollowsName rest) : EndsName (s ++ rest) := by
  cases h with
  | bare => exact (hrest rfl).1
  | quoted hb hb' hquote htext =>
    simp only [List.append_assoc, List.cons_append]
    exact endsName_blanks hb (endsName_cons rfl _)
  | braced hb hb₁ hb₂ hv hb₃ =>
    simp only [List.append_assoc, List.cons_append]
    exact endsName_blanks hb (endsName_cons rfl _)

/-- An attribute is read with its value, and the depth of the value counts. -/
theorem outcome_assigned {v : Value} {named : Bool} {s : List Char} (h : Assigns v named s)
    (name : String) (t : Tag) (site : Site) (hroom : site.stack.length + 1 ≤ maxDepth)
    {rest : List Char} (hrest : named = true → FollowsName rest) :
    outcome (.at (.attribute name t site)) (s ++ rest) =
      within (site.stack.length + 1 + v.nesting)
        (outcome (.at (.tag (t.add name v) site)) rest) := by
  have hequals : (Place.attribute name t site).advance '=' =
      goOn (.attributeValue name t site) := rfl
  cases h with
  | bare =>
    rw [Value.nesting, Json.nesting, Nat.add_zero, within_of_le hroom]
    exact outcome_bare name t site (hrest rfl)
  | @quoted quote text b b' hb hb' hquote htext =>
    have hbegin : (Place.attributeValue name t site).advance quote =
        goOn (.attributeText quote "" name t site) := by
      have hblank : isBlank quote = false := (isVisible_of_isQuote hquote).not_isBlank
      simp [Place.advance, hblank, hquote]
    rw [Value.nesting, Json.nesting, Nat.add_zero, within_of_le hroom]
    have hread := outcome_attributeText name t site htext "" rest
    rw [String.ofList_toList, String.empty_append] at hread
    simp only [List.append_assoc, List.cons_append, List.nil_append]
    rw [outcome_blanks rfl hb, outcome_advance hequals, outcome_blanks rfl hb',
      outcome_advance hbegin, hread]
  | @braced _ b b₁ b₂ s b₃ hb hb₁ hb₂ hv hb₃ =>
    have hbegin : (Place.attributeValue name t site).advance '{' = goOn (.value name t site) := rfl
    have hread := outcome_braced (awaits_value name t site) hb₂ hv hb₃ hroom rest
    simp only [List.append_assoc, List.cons_append, List.nil_append] at hread ⊢
    rw [outcome_blanks rfl hb, outcome_advance hequals, outcome_blanks rfl hb₁,
      outcome_advance hbegin, hread]
    rfl

/-- The attributes of a tag are read in their order, and the deepest value counts. -/
theorem SpellsAttributes.reads {named : Bool} {attributes : List Attribute} {a : List Char}
    (h : SpellsAttributes named attributes a) (t : Tag) (site : Site)
    (hroom : site.stack.length + 1 ≤ maxDepth) {rest : List Char} (hrest : EndsTag rest) :
    outcome (.at (.tag t site)) (a ++ rest) =
      within (site.stack.length + 1 + nestingAttributes attributes)
        (outcome (.at (.tag { t with attributes := attributes.reverse ++ t.attributes } site))
          rest) := by
  induction h generalizing t with
  | done hb =>
    rw [nestingAttributes, Nat.add_zero, within_of_le hroom, outcome_blanks rfl hb]
    rfl
  | @more named named' name v attributes b s tail hb hgap hname hv h ih =>
    have hfollows : named' = true → FollowsName (tail ++ rest) := by
      rintro rfl
      exact h.followsName hrest
    rw [List.append_assoc, List.append_assoc, List.append_assoc, outcome_blanks rfl hb,
      outcome_name (fun _ hc => advance_tag_name t site hc) hname
        (hv.endsName hfollows), NameRole.supply,
      outcome_assigned hv name t site hroom hfollows, ih (t.add name v), within_within,
      nestingAttributes]
    simp [Nat.add_max_add_left, Tag.add]

/-! ### Tags -/

/-- What begins with an angle, and is no closing tag, is one level more. -/
theorem outcome_angle {site : Site} {c : Char} (hc : c ≠ '/') {rest : List Char}
    {o : Except Refusal (List Node)}
    (h : site.stack.length < maxDepth → outcome (.at (.angle site)) (c :: rest) = o) :
    outcome (.at (.content site)) ('<' :: c :: rest) = within (site.stack.length + 1) o := by
  have hangle : (Place.content site).advance '<' = goOn (.angle site) := rfl
  rw [outcome_advance hangle, within]
  by_cases hroom : site.stack.length + 1 ≤ maxDepth
  · rw [if_pos hroom, h hroom]
  · have hdeep : maxDepth ≤ site.stack.length := by omega
    have hrefused : (Place.angle site).advance c = .error .tooDeep := by
      simp [Place.advance, angleStep, hc, hdeep]
    rw [if_neg hroom, outcome_refused hrefused]

/-- The beginning of a tag opens an element, if there is room for it. -/
theorem outcome_opening {name : String} (hname : IsName name.toList) (site : Site)
    {rest : List Char} (hrest : EndsName rest) :
    outcome (.at (.content site)) ('<' :: (name.toList ++ rest)) =
      within (site.stack.length + 1) (outcome (.at (.tag ⟨name, []⟩ site)) rest) := by
  obtain ⟨c, cs, hcs, hc, -⟩ := hname.chars
  rw [hcs, List.cons_append]
  refine outcome_angle (ne_of_class hc rfl) fun hroom => ?_
  have hbegin : ∀ d, isNameStart d = true →
      (Place.angle site).advance d = beginName (.tag site) d := by
    intro d hd
    have hslash : d ≠ '/' := ne_of_class hd rfl
    have hclose : d ≠ '>' := ne_of_class hd rfl
    simp [Place.advance, angleStep, hslash, hclose, Nat.not_le.2 hroom]
  rw [← List.cons_append, ← hcs]
  exact outcome_name hbegin hname hrest

/-- A fragment is opened, if there is room for it. -/
theorem outcome_openingFragment (site : Site) (rest : List Char) :
    outcome (.at (.content site)) ('<' :: '>' :: rest) =
      within (site.stack.length + 1) (outcome (.at (.content (site.enter none))) rest) := by
  refine outcome_angle (by decide) fun hroom => ?_
  have henter : (Place.angle site).advance '>' = goOn (.content (site.enter none)) := by
    simp [Place.advance, angleStep, Nat.not_le.2 hroom]
  rw [outcome_advance henter]

/-- The children of an element or fragment are over. -/
theorem outcome_closing (nodes : List Node) (o : Open) (outer : List Open) (rest : List Char) :
    outcome (.at (.content ⟨nodes, o :: outer⟩)) ('<' :: '/' :: rest) =
      outcome (.at (.closing ⟨nodes, o :: outer⟩)) rest := by
  have hangle : (Place.content ⟨nodes, o :: outer⟩).advance '<' =
      goOn (.angle ⟨nodes, o :: outer⟩) := rfl
  have hslash : (Place.angle ⟨nodes, o :: outer⟩).advance '/' =
      goOn (.closing ⟨nodes, o :: outer⟩) := rfl
  rw [outcome_advance hangle, outcome_advance hslash]

/-- A closing tag of the same name closes what was opened last. -/
theorem close_of_name (nodes : List Node) {o : Open} (outer : List Open) {name : String}
    (h : name = o.name) :
    close ⟨nodes, o :: outer⟩ name =
      goOn (.content ⟨o.node nodes.reverse :: o.before, outer⟩) := if_pos h

/-- A closing tag closes its element; blanks may stand before and behind the name. -/
theorem outcome_closingName {name : String} (hname : IsName name.toList) (nodes : List Node)
    {o : Open} (outer : List Open) (ho : name = o.name) {b b' : List Char} (hb : Blanks b)
    (hb' : Blanks b') (rest : List Char) :
    outcome (.at (.content ⟨nodes, o :: outer⟩))
        ('<' :: '/' :: (b ++ (name.toList ++ (b' ++ '>' :: rest)))) =
      outcome (.at (.content ⟨o.node nodes.reverse :: o.before, outer⟩)) rest := by
  have hbegin : ∀ c, isNameStart c = true → (Place.closing ⟨nodes, o :: outer⟩).advance c =
      beginName (.closing ⟨nodes, o :: outer⟩) c := by
    intro c hc
    have hangle : c ≠ '>' := ne_of_class hc rfl
    simp [Place.advance, (isVisible_of_isNameStart hc).not_isBlank, hangle]
  have hend : (Place.closingEnd name ⟨nodes, o :: outer⟩).advance '>' =
      goOn (.content ⟨o.node nodes.reverse :: o.before, outer⟩) := close_of_name nodes outer ho
  rw [outcome_closing, outcome_blanks rfl hb,
    outcome_name hbegin hname (endsName_blanks hb' (endsName_cons rfl rest)), NameRole.supply,
    outcome_blanks rfl hb', outcome_advance hend]

/-- A closing tag without a name closes a fragment. -/
theorem outcome_closingFragment (nodes : List Node) {o : Open} (outer : List Open)
    (ho : "" = o.name) {b : List Char} (hb : Blanks b) (rest : List Char) :
    outcome (.at (.content ⟨nodes, o :: outer⟩)) ('<' :: '/' :: (b ++ '>' :: rest)) =
      outcome (.at (.content ⟨o.node nodes.reverse :: o.before, outer⟩)) rest := by
  have hend : (Place.closing ⟨nodes, o :: outer⟩).advance '>' =
      goOn (.content ⟨o.node nodes.reverse :: o.before, outer⟩) := close_of_name nodes outer ho
  rw [outcome_closing, outcome_blanks rfl hb, outcome_advance hend]

/-! ### Nodes -/

/-- What comes of a node, or of the children of one element, that is spelled `s`. -/
def Phrase.Reads (s : List Char) : Phrase → Prop
  | .node n => ∀ site : Site, site.stack.length ≤ maxDepth → ∀ rest,
      outcome (.at (.content site)) (s ++ rest) =
        within (site.stack.length + n.nesting) (outcome (.at (.content (site.add n))) rest)
  | .children atTop _ ns => ∀ site : Site, site.stack.isEmpty = atTop →
      site.stack.length ≤ maxDepth → ∀ {rest}, EndsText rest →
        outcome (.at (.content site)) (s ++ rest) =
          within (site.stack.length + nestingNodes ns)
            (outcome (.at (.content { site with nodes := ns.reverse ++ site.nodes })) rest)

/-- The spelling of a node begins with an angle bracket or a brace, which ends a text before it. -/
theorem Spells.head_node {n : Node} {s : List Char} (h : Spells (.node n) s) :
    ∃ c rest, s = c :: rest ∧ (c = '<' ∨ c = '{') := by
  cases h with
  | selfClosing | element | fragment => exact ⟨'<', _, rfl, .inl rfl⟩
  | expression => exact ⟨'{', _, rfl, .inr rfl⟩

/-- Where no run of characters can stand, the run before ends. -/
theorem Spells.endsText {atTop : Bool} {ns : List Node} {s : List Char}
    (h : Spells (.children atTop false ns) s) {rest : List Char} (hrest : EndsText rest) :
    EndsText (s ++ rest) := by
  cases h with
  | done => exact hrest
  | child h =>
    obtain ⟨c, tail, rfl, hc⟩ := h.head_node
    exact fun d hd => Option.some.inj hd ▸ hc
  | comment => exact fun d hd => .inr (Option.some.inj hd).symm

theorem endsText_angle (rest : List Char) : EndsText ('<' :: rest) :=
  fun _ hd => .inl (Option.some.inj hd).symm

/-- The children of an element or fragment, up to its closing tag. -/
theorem outcome_children {ns : List Node} {s : List Char}
    (h : Phrase.Reads s (.children false true ns)) (tag : Option Tag) (site : Site)
    (hroom : site.stack.length + 1 ≤ maxDepth) (rest : List Char) :
    outcome (.at (.content (site.enter tag))) (s ++ '<' :: rest) =
      within (site.stack.length + 1 + nestingNodes ns)
        (outcome (.at (.content ⟨ns.reverse, ⟨tag, site.nodes⟩ :: site.stack⟩)) ('<' :: rest)) := by
  have hread := h (site.enter tag) rfl hroom (endsText_angle rest)
  simpa [Site.enter] using hread

/-- A tag that closes itself is an element without children. -/
theorem reads_selfClosing {name : String} {attributes : List Attribute} {a : List Char}
    (hname : IsName name.toList) (ha : SpellsAttributes true attributes a) :
    Phrase.Reads ('<' :: name.toList ++ a ++ ['/', '>']) (.node (.element name attributes [])) := by
  intro site hroom rest
  have htag : EndsTag ('/' :: '>' :: rest) := fun _ hd => .inl (Option.some.inj hd).symm
  have hslash : ∀ t, (Place.tag t site).advance '/' = goOn (.slashEnd t site) := fun _ => rfl
  have hend : ∀ t, (Place.slashEnd t site).advance '>' =
      goOn (.content (site.add (.element t.name t.attributes.reverse []))) := fun _ => rfl
  simp only [List.cons_append, List.append_assoc, List.nil_append]
  rw [outcome_opening hname site (ha.followsName htag).1,
    within_congr fun hdeep => ha.reads ⟨name, []⟩ site hdeep htag, within_add,
    outcome_advance (hslash _), outcome_advance (hend _), Nat.add_right_comm]
  simp [Node.nesting, nestingNodes, Nat.add_assoc]

/-- An element is read with its attributes and its children. -/
theorem reads_element {name : String} {attributes : List Attribute} {children : List Node}
    {a s b b' : List Char} (hname : IsName name.toList) (ha : SpellsAttributes true attributes a)
    (h : Phrase.Reads s (.children false true children)) (hb : Blanks b) (hb' : Blanks b') :
    Phrase.Reads
      ('<' :: name.toList ++ a ++ '>' :: s ++ '<' :: '/' :: b ++ name.toList ++ b' ++ ['>'])
      (.node (.element name attributes children)) := by
  intro site hroom rest
  have htag : ∀ tail, EndsTag ('>' :: tail) := fun _ _ hd => .inr (Option.some.inj hd).symm
  have henter : ∀ t, (Place.tag t site).advance '>' = goOn (.content (site.enter (some t))) :=
    fun _ => rfl
  have hinside : site.stack.length + 1 ≤ maxDepth →
      outcome (.at (.tag ⟨name, []⟩ site))
        (a ++ '>' :: (s ++ '<' :: '/' :: (b ++ (name.toList ++ (b' ++ '>' :: rest))))) =
      within (site.stack.length + 1 + max (nestingAttributes attributes) (nestingNodes children))
        (outcome (.at (.content (site.add (.element name attributes children)))) rest) := by
    intro hdeep
    -- Attributes and children stand on the same level, so the deeper ones decide.
    rw [ha.reads ⟨name, []⟩ site hdeep (htag _), outcome_advance (henter _),
      outcome_children h _ site hdeep,
      outcome_closingName hname children.reverse site.stack rfl hb hb', within_within,
      Nat.add_max_add_left]
    simp [Open.node, Site.add]
  simp only [List.cons_append, List.append_assoc, List.nil_append]
  rw [outcome_opening hname site (ha.followsName (htag _)).1, within_congr hinside, within_add,
    Node.nesting, Nat.add_right_comm, Nat.add_assoc]

/-- A fragment is read with its children. -/
theorem reads_fragment {children : List Node} {s b : List Char}
    (h : Phrase.Reads s (.children false true children)) (hb : Blanks b) :
    Phrase.Reads ('<' :: '>' :: s ++ '<' :: '/' :: b ++ ['>']) (.node (.fragment children)) := by
  intro site hroom rest
  simp only [List.cons_append, List.append_assoc, List.nil_append]
  rw [outcome_openingFragment,
    within_congr fun hdeep => outcome_children h none site hdeep ('/' :: (b ++ '>' :: rest)),
    within_add, outcome_closingFragment children.reverse site.stack rfl hb, Nat.add_right_comm]
  simp [Node.nesting, Open.node, Site.add, Nat.add_assoc]

/-- A value in braces is read as an expression. -/
theorem reads_expression {v : Value} {b s b' : List Char} (hb : Blanks b) (hv : SpellsValue v s)
    (hb' : Blanks b') :
    Phrase.Reads ('{' :: b ++ s ++ b' ++ ['}']) (.node (.expression v)) := by
  intro site hroom rest
  have hbrace : (Place.content site).advance '{' = goOn (.brace site) := rfl
  have hread := outcome_braced (awaits_brace site) hb hv hb' hroom rest
  simp only [List.cons_append, List.append_assoc, List.nil_append] at hread ⊢
  rw [outcome_advance hbrace, hread]
  rfl

/-- Layout stands for nothing. -/
theorem outcome_layout {site : Site} {b : List Char} (hb : Blanks b) (hne : b ≠ [])
    (hfeed : '\n' ∈ b ∨ site.stack.isEmpty = true) {rest : List Char} (hrest : EndsText rest) :
    outcome (.at (.content site)) (b ++ rest) = outcome (.at (.content site)) rest := by
  have hchars : '<' ∉ b ∧ '{' ∉ b :=
    ⟨fun h => absurd (hb '<' h) (by decide), fun h => absurd (hb '{' h) (by decide)⟩
  rw [outcome_text site hne hchars hrest, Site.addText, normalize_layout hb hfeed]

/-- So does a comment. -/
theorem outcome_commentNode (site : Site) {b body b' : List Char} (hb : Blanks b)
    (hbody : ¬ ['*', '/'] <:+: body) (hb' : Blanks b') (rest : List Char) :
    outcome (.at (.content site))
        ('{' :: (b ++ '/' :: '*' :: (body ++ '*' :: '/' :: (b' ++ '}' :: rest)))) =
      outcome (.at (.content site)) rest := by
  have hbrace : (Place.content site).advance '{' = goOn (.brace site) := rfl
  have hslash : (Place.brace site).advance '/' = goOn (.slash site) := rfl
  have hstar : (Place.slash site).advance '*' = goOn (.comment false site) := rfl
  have hclose : (Place.commentEnd site).advance '}' = goOn (.content site) := rfl
  rw [outcome_advance hbrace, outcome_blanks rfl hb, outcome_advance hslash, outcome_advance hstar,
    outcome_comment site hbody (by simp), outcome_blanks rfl hb', outcome_advance hclose]

/-- **Nodes are read back** from each of their spellings. -/
theorem Spells.reads {part : Phrase} {s : List Char} (h : Spells part s) : part.Reads s := by
  induction h with
  | selfClosing hname ha => exact reads_selfClosing hname ha
  | element hname ha h hb hb' ih => exact reads_element hname ha ih hb hb'
  | fragment h hb ih => exact reads_fragment ih hb
  | expression hb hv hb' => exact reads_expression hb hv hb'
  | done =>
    intro site htop hroom rest hrest
    rw [nestingNodes, Nat.add_zero, within_of_le hroom]
    rfl
  | @child atTop free node nodes s tail h hrest ih ihrest =>
    intro site htop hroom rest hend
    rw [List.append_assoc, ih site hroom, ihrest (site.add node) htop hroom hend, within_within,
      nestingNodes]
    simp [Nat.add_max_add_left, Site.add]
  | @text atTop text nodes tail h hrest ih =>
    intro site htop hroom rest hend
    have hadd : site.addText text.toList = site.add (.text text) := by
      rw [Site.addText, htop, normalize_text h, String.ofList_toList]
    rw [List.append_assoc, outcome_text site h.nonempty h.chars (hrest.endsText hend), hadd,
      ih (site.add (.text text)) htop hroom hend]
    simp [Node.nesting, nestingNodes, Site.add]
  | layout hb hne hfeed hrest ih =>
    intro site htop hroom rest hend
    rw [List.append_assoc, outcome_layout hb hne (by rwa [htop]) (hrest.endsText hend),
      ih site htop hroom hend]
  | comment hb hbody hb' hrest ih =>
    intro site htop hroom rest hend
    simp only [List.cons_append, List.append_assoc]
    rw [outcome_commentNode site hb hbody hb', ih site htop hroom hend]

/-- A spelling is read as its tree, unless the tree is too deep. -/
theorem Spells.parse {nodes : List Node} {source : List Char}
    (h : Spells (.children true true nodes) source) (hne : nodes ≠ []) :
    parse source =
      if nestingNodes nodes ≤ maxDepth then .ok nodes else .error (.tooDeep maxDepth) := by
  have hread : outcome .initial (source ++ []) = within (0 + nestingNodes nodes)
      (outcome (.at (.content ⟨nodes.reverse ++ [], []⟩)) []) :=
    h.reads ⟨[], []⟩ rfl (Nat.zero_le _) (by simp [EndsText])
  have hend : outcome (.at (.content ⟨nodes.reverse ++ [], []⟩)) [] = .ok nodes := by
    simp [outcome, State.finish, State.settle, Place.finish, hne]
  rw [hend, List.append_nil] at hread
  simpa using parse_of_outcome hread

end AgentSurface.Jsx
