import AgentSurface.Proofs.Json.Readable
import AgentSurface.Proofs.Jsx.Prose

/-!
# Jsx — what is accepted is inside the grammar

The reader keeps what it has read so far in the place where it is: the siblings before, what is open
around, the attributes and literals that are not finished.  All of it is inside the restricted
grammar and has room in the depth that it stands in (`State.Sound`).  No step gives that up, so a
tree that is read is inside the grammar, however its source is written.

* `Node.Restricted`: the names, texts and identifiers of the grammar.
* `Site.Sound`, `Around`: what is kept of the nodes and the literals around a place.
* `Place.Sound.advance`, `State.Sound.step`, `State.sound_of_feed`: one step, and all of them.
* `parse_restricted`: what is accepted is inside the grammar.
-/

namespace AgentSurface.Jsx

open Text (isBlank)

/-! ### Trees inside the grammar -/

/-- A literal, or a dotted path other than the words that are literals. -/
def Value.Restricted : Value → Prop
  | .literal _ => True
  | .ident path => IsPath path.toList ∧ path ∉ literalWords

/-- The name and the value of the attribute are inside the grammar. -/
structure Attribute.Restricted (a : Attribute) : Prop where
  name : IsName a.name.toList
  value : a.value.Restricted

mutual

/-- The node is inside the grammar; a text is one that stands among children. -/
def Node.Restricted : Node → Prop
  | .element name attributes children =>
    IsName name.toList ∧ (∀ a ∈ attributes, a.Restricted) ∧ RestrictedNodes children
  | .fragment children => RestrictedNodes children
  | .text text => IsText false text.toList
  | .expression v => v.Restricted

/-- All of these nodes are inside the grammar. -/
def RestrictedNodes : List Node → Prop
  | [] => True
  | n :: rest => n.Restricted ∧ RestrictedNodes rest

end

theorem restrictedNodes_iff {nodes : List Node} :
    RestrictedNodes nodes ↔ ∀ n ∈ nodes, n.Restricted := by
  induction nodes with
  | nil => simp [RestrictedNodes]
  | cons n rest ih => simp [RestrictedNodes, ih]

theorem nestingNodes_le_iff {nodes : List Node} {depth : Nat} :
    nestingNodes nodes ≤ depth ↔ ∀ n ∈ nodes, n.nesting ≤ depth := by
  induction nodes with
  | nil => simp [nestingNodes]
  | cons n rest ih => rw [nestingNodes, Nat.max_le, ih, List.forall_mem_cons]

theorem nestingAttributes_le_iff {attributes : List Attribute} {depth : Nat} :
    nestingAttributes attributes ≤ depth ↔ ∀ a ∈ attributes, a.value.nesting ≤ depth := by
  induction attributes with
  | nil => simp [nestingAttributes]
  | cons a rest ih => rw [nestingAttributes, Nat.max_le, ih, List.forall_mem_cons]

/-! ### Room for what is around -/

/-- Inside the grammar, with room for so many elements and containers around it. -/
structure Value.Fits (v : Value) (around : Nat) : Prop where
  restricted : v.Restricted
  room : v.nesting + around ≤ maxDepth

/-- Inside the grammar, with room for what is around it. -/
structure Attribute.Fits (a : Attribute) (around : Nat) : Prop where
  name : IsName a.name.toList
  value : a.value.Fits around

/-- Inside the grammar, with room for so many elements around it. -/
structure Node.Fits (n : Node) (around : Nat) : Prop where
  restricted : n.Restricted
  room : n.nesting + around ≤ maxDepth

/-- The tag that is being read fits with the attributes that it has so far. -/
structure Tag.Fits (t : Tag) (around : Nat) : Prop where
  name : IsName t.name.toList
  attributes : ∀ a ∈ t.attributes, a.Fits around

/-- What is open, each inside less than `maxDepth` others, and the elder siblings in it. -/
def SoundStack : List Open → Prop
  | [] => True
  | o :: outer => outer.length < maxDepth ∧ (∀ t ∈ o.tag, t.Fits (outer.length + 1)) ∧
      (∀ n ∈ o.before, n.Fits outer.length) ∧ SoundStack outer

/-- What is open and what stands in it already is inside the grammar and has room. -/
structure Site.Sound (site : Site) : Prop where
  stack : SoundStack site.stack
  nodes : ∀ n ∈ site.nodes, n.Fits site.stack.length

/-- No more elements are open than are allowed. -/
theorem SoundStack.length_le {stack : List Open} (h : SoundStack stack) :
    stack.length ≤ maxDepth := by
  cases stack with
  | nil => exact Nat.zero_le _
  | cons o outer => exact h.1

/-- An open element or fragment with room for its children is a node with room around it. -/
theorem Open.fits_node {o : Open} {children : List Node} {around : Nat} (hroom : around < maxDepth)
    (htag : ∀ t ∈ o.tag, t.Fits (around + 1)) (h : ∀ n ∈ children, n.Fits (around + 1)) :
    (o.node children).Fits around := by
  have hchildren : RestrictedNodes children := restrictedNodes_iff.2 fun n hn => (h n hn).restricted
  have hnodes : nestingNodes children ≤ maxDepth - (around + 1) :=
    nestingNodes_le_iff.2 fun n hn => Nat.le_sub_of_add_le (h n hn).room
  unfold Open.node
  split
  · next t ht =>
    obtain ⟨hname, hattributes⟩ := htag t ht
    have hvalues : nestingAttributes t.attributes.reverse ≤ maxDepth - (around + 1) :=
      nestingAttributes_le_iff.2 fun a ha =>
        Nat.le_sub_of_add_le (hattributes a (List.mem_reverse.1 ha)).value.room
    refine ⟨⟨hname, fun a ha => ?_, hchildren⟩, ?_⟩
    · have hfits := hattributes a (List.mem_reverse.1 ha)
      exact ⟨hfits.name, hfits.value.restricted⟩
    · rw [Node.nesting]
      omega
  · refine ⟨hchildren, ?_⟩
    rw [Node.nesting]
    omega

namespace Site.Sound

variable {site : Site}

/-- One more node that fits. -/
theorem add (h : site.Sound) {n : Node} (hn : n.Fits site.stack.length) : (site.add n).Sound :=
  ⟨h.stack, List.forall_mem_cons.2 ⟨hn, h.nodes⟩⟩

/-- Characters between two nodes are a text, or no node at all. -/
theorem addText (h : site.Sound) {raw : List Char} (hangle : '<' ∉ raw) (hbrace : '{' ∉ raw) :
    (site.addText raw).Sound := by
  unfold Site.addText
  split
  · next text htext =>
    refine h.add ⟨isText_of_normalize htext hangle hbrace, ?_⟩
    rw [Node.nesting, Nat.zero_add]
    exact h.stack.length_le
  · exact h

/-- An element or fragment is opened where there is room. -/
theorem enter (h : site.Sound) (hroom : site.stack.length < maxDepth) {tag : Option Tag}
    (htag : ∀ t ∈ tag, t.Fits (site.stack.length + 1)) : (site.enter tag).Sound :=
  ⟨⟨hroom, htag, h.nodes, h.stack⟩, List.forall_mem_nil _⟩

/-- What is open ends as one more child of what is around it. -/
theorem close (h : site.Sound) {o : Open} {outer : List Open} (hstack : site.stack = o :: outer) :
    Site.Sound ⟨o.node site.nodes.reverse :: o.before, outer⟩ := by
  obtain ⟨nodes, stack⟩ := site
  obtain rfl : stack = o :: outer := hstack
  obtain ⟨⟨hroom, htag, hbefore, houter⟩, hnodes⟩ := h
  refine ⟨houter, List.forall_mem_cons.2 ⟨?_, hbefore⟩⟩
  exact Open.fits_node hroom htag fun n hn => hnodes n (List.mem_reverse.1 hn)

/-- A tag has one attribute more. -/
theorem addAttribute {t : Tag} (h : (site.enter (some t)).Sound) {name : String}
    (hname : IsName name.toList) {v : Value} (hv : v.Fits (site.stack.length + 1)) :
    (site.enter (some (t.add name v))).Sound := by
  obtain ⟨⟨hroom, htag, hbefore, houter⟩, hnodes⟩ := h
  obtain ⟨htagName, hattributes⟩ := htag t rfl
  refine ⟨⟨hroom, fun t' ht' => ?_, hbefore, houter⟩, hnodes⟩
  cases ht'
  exact ⟨htagName, List.forall_mem_cons.2 ⟨⟨hname, hv⟩, hattributes⟩⟩

/-- A value without nesting has room in a tag. -/
theorem fits_flat {t : Tag} (h : (site.enter (some t)).Sound) {v : Json} (hv : v.nesting = 0) :
    (Value.literal v).Fits (site.stack.length + 1) := by
  refine ⟨trivial, ?_⟩
  rw [Value.nesting, hv, Nat.zero_add]
  exact h.stack.length_le

end Site.Sound

/-! ### Values in braces -/

/-- The place that a value in braces goes to. -/
def Slot.Sound : Slot → Prop
  | .attribute name t site => IsName name.toList ∧ (site.enter (some t)).Sound
  | .child site => site.Sound

/-- There is room for a value without nesting wherever one may stand. -/
theorem Slot.Sound.depth_le {slot : Slot} (h : slot.Sound) : slot.depth ≤ maxDepth := by
  cases slot with
  | «attribute» name t site => exact h.2.stack.length_le
  | child site => exact h.stack.length_le

/-- The open literals with so many elements around them, and what stands in them already. -/
def SoundFrames (around : Nat) : Frames → Prop
  | [] => True
  | frame :: rest => around + rest.length < maxDepth ∧
      (∀ v ∈ frame.values, v.nesting + (around + rest.length + 1) ≤ maxDepth) ∧
      SoundFrames around rest

/-- What is around a literal. -/
structure Around (frames : Frames) (slot : Slot) : Prop where
  outer : slot.Sound
  inner : SoundFrames slot.depth frames

/-- At the beginning of a value no literal is open. -/
theorem Slot.Sound.around {slot : Slot} (h : slot.Sound) : Around [] slot := ⟨h, trivial⟩

namespace Around

variable {frames : Frames} {slot : Slot}

/-- No more literals are open than there is room for. -/
theorem length_le (h : Around frames slot) : slot.depth + frames.length ≤ maxDepth := by
  cases frames with
  | nil => exact h.outer.depth_le
  | cons frame rest => exact h.inner.1

/-- A list or an object opens where there is room for it. -/
theorem cons (h : Around frames slot) (hroom : slot.depth + frames.length < maxDepth)
    {frame : Json.Frame} (hframe : frame.values = []) : Around (frame :: frames) slot :=
  ⟨h.outer, hroom, by simp [hframe], h.inner⟩

/-- The literals around an open one. -/
theorem tail {frame : Json.Frame} (h : Around (frame :: frames) slot) : Around frames slot :=
  ⟨h.outer, h.inner.2.2⟩

/-- It does not matter under which key the next value goes. -/
theorem rekey {before : Json.Fields} {key : String} (h : Around (.member before key :: frames) slot)
    (key' : String) : Around (.member before key' :: frames) slot :=
  ⟨h.outer, h.inner⟩

/-- A list whose elements have room has room around it. -/
theorem nesting_array {before : List Json} (h : Around (.item before :: frames) slot) :
    (Json.array before.reverse).nesting + (slot.depth + frames.length) ≤ maxDepth := by
  obtain ⟨-, hroom, hvalues, -⟩ := h
  have hitems : Json.nestingItems before.reverse ≤ maxDepth - (slot.depth + frames.length + 1) :=
    Json.nestingItems_le_iff.2 fun v hv => Nat.le_sub_of_add_le (hvalues v (List.mem_reverse.1 hv))
  rw [Json.nesting]
  omega

/-- An object whose members have room has room around it. -/
theorem nesting_object {before : Json.Fields} {key : String}
    (h : Around (.member before key :: frames) slot) :
    (Json.object before).nesting + (slot.depth + frames.length) ≤ maxDepth := by
  obtain ⟨-, hroom, hvalues, -⟩ := h
  have hmembers : Json.nestingMembers before ≤ maxDepth - (slot.depth + frames.length + 1) :=
    Json.nestingMembers_le_iff.2 fun m hm =>
      Nat.le_sub_of_add_le (hvalues m.2 (List.mem_map_of_mem hm))
  rw [Json.nesting]
  omega

end Around

/-! ### Pieces that are being read -/

/-- The beginning of a name, latest character first. -/
def BeginsName (read : List Char) : Prop :=
  ∃ c rest, read.reverse = c :: rest ∧ isNameStart c = true ∧ ∀ d ∈ rest, isNameRest d = true

theorem BeginsName.cons {read : List Char} (h : BeginsName read) {c : Char}
    (hc : isNameRest c = true) : BeginsName (c :: read) := by
  obtain ⟨first, rest, hread, hfirst, hrest⟩ := h
  refine ⟨first, rest ++ [c], by rw [List.reverse_cons, hread, List.cons_append], hfirst, ?_⟩
  exact List.forall_mem_append.2 ⟨hrest, List.forall_mem_singleton.2 hc⟩

/-- A name is whole if its last character is no point. -/
theorem BeginsName.isName {read : List Char} (h : BeginsName read) (hlast : read.head? ≠ some '.') :
    IsName (String.ofList read.reverse).toList := by
  rw [String.toList_ofList]
  exact ⟨h, by rwa [List.getLast?_reverse]⟩

theorem IsIdentifier.append {s : List Char} (h : IsIdentifier s) {c : Char}
    (hc : isIdentStart c = true ∨ c.isDigit = true) : IsIdentifier (s ++ [c]) := by
  obtain ⟨first, rest, rfl, hfirst, hrest⟩ := h
  exact ⟨first, rest ++ [c], rfl, hfirst,
    List.forall_mem_append.2 ⟨hrest, List.forall_mem_singleton.2 hc⟩⟩

theorem isIdentifier_singleton {c : Char} (hc : isIdentStart c = true) : IsIdentifier [c] :=
  ⟨c, [], rfl, hc, List.forall_mem_nil _⟩

namespace IsPath

variable {s : List Char} {c : Char}

/-- A letter or a digit goes on the last identifier. -/
theorem append (h : IsPath s) (hc : isIdentStart c = true ∨ c.isDigit = true) :
    IsPath (s ++ [c]) := by
  induction h with
  | one h => exact .one (h.append hc)
  | dot h _ ih =>
    rw [List.append_assoc, List.cons_append]
    exact .dot h ih

/-- Behind a dot a new identifier begins. -/
theorem appendDot (h : IsPath s) (hc : isIdentStart c = true) : IsPath (s ++ ['.', c]) := by
  induction h with
  | one h => exact .dot h (.one (isIdentifier_singleton hc))
  | dot h _ ih =>
    rw [List.append_assoc, List.cons_append]
    exact .dot h ih

end IsPath

/-- The beginning of a path, latest character first: a path, or one with a dot behind it. -/
def BeginsPath (read : List Char) : Prop :=
  IsPath read.reverse ∨ ∃ before, read = '.' :: before ∧ IsPath before.reverse

/-- A letter goes on with a path, and so do a digit and a point behind a letter or digit. -/
theorem BeginsPath.cons {read : List Char} (h : BeginsPath read) {c : Char}
    (hc : isIdentStart c = true ∨
      read.head? ≠ some '.' ∧ (c.isDigit = true ∨ c = '.')) : BeginsPath (c :: read) := by
  obtain hpath | ⟨before, rfl, hpath⟩ := h
  · rcases hc with hc | ⟨-, hc | rfl⟩
    · exact .inl (by simpa using hpath.append (.inl hc))
    · exact .inl (by simpa using hpath.append (.inr hc))
    · exact .inr ⟨read, rfl, hpath⟩
  · rcases hc with hc | ⟨hdot, -⟩
    · exact .inl (by simpa using hpath.appendDot hc)
    · exact absurd rfl hdot

/-- A path is whole if its last character is no point. -/
theorem BeginsPath.isPath {read : List Char} (h : BeginsPath read)
    (hlast : read.head? ≠ some '.') : IsPath (String.ofList read.reverse).toList := by
  rw [String.toList_ofList]
  refine h.resolve_right ?_
  rintro ⟨before, rfl, -⟩
  exact hlast rfl

/-! ### States -/

/-- A string goes where a value or a key may stand. -/
def StringRole.Sound (slot : Slot) : StringRole → Prop
  | .value frames => Around frames slot
  | .key before frames => Around (.member before "" :: frames) slot

/-- A name goes to a tag, to an attribute or to the end of an element. -/
def NameRole.Sound : NameRole → Prop
  | .closing site => site.Sound
  | .tag site => site.Sound ∧ site.stack.length < maxDepth
  | .attribute t site => (site.enter (some t)).Sound

/-- A word goes where a value or a key may stand. -/
def IdentRole.Sound : IdentRole → Prop
  | .value slot => slot.Sound
  | .literal frames slot => Around frames slot
  | .key before frames slot => Around (.member before "" :: frames) slot

/-- What is kept at a place is inside the grammar. -/
def Place.Sound : Place → Prop
  | .content site | .angle site | .closing site | .closingEnd _ site | .brace site | .slash site
  | .comment _ site | .commentEnd site => site.Sound
  | .tag t site | .slashEnd t site => (site.enter (some t)).Sound
  | .attribute name t site | .attributeValue name t site | .attributeText _ _ name t site
  | .value name t site => IsName name.toList ∧ (site.enter (some t)).Sound
  | .valueEnd v slot => slot.Sound ∧ v.Fits slot.depth
  | .listNext before frames slot | .listMore before frames slot =>
    Around (.item before :: frames) slot
  | .objectNext before frames slot | .objectMore before frames slot =>
    Around (.member before "" :: frames) slot
  | .colon before key frames slot | .memberValue before key frames slot =>
    Around (.member before key :: frames) slot
  | .string _ _ _ role slot => role.Sound slot

/-- What the machine keeps is inside the grammar. -/
def State.Sound : State → Prop
  | .at place => place.Sound
  | .text read site => site.Sound ∧ '<' ∉ read ∧ '{' ∉ read
  | .name read role => role.Sound ∧ BeginsName read
  | .ident read role => role.Sound ∧ BeginsPath read
  | .number _ frames slot => Around frames slot

/-! ### Putting things into place -/

/-- A value that fits leads to a sound place. -/
theorem Slot.Sound.supply {slot : Slot} (h : slot.Sound) {v : Value} (hv : v.Fits slot.depth) :
    (slot.supply v).Sound := by
  cases slot with
  | «attribute» name t site => exact h.2.addAttribute h.1 hv
  | child site => exact Site.Sound.add h ⟨hv.restricted, hv.room⟩

/-- A literal with room around it is put into its place. -/
theorem Around.supply {frames : Frames} {slot : Slot} (h : Around frames slot) {v : Json}
    (hv : v.nesting + (slot.depth + frames.length) ≤ maxDepth) :
    (Jsx.supply v frames slot).Sound := by
  obtain ⟨hslot, hframes⟩ := h
  cases frames with
  | nil => exact ⟨hslot, trivial, hv⟩
  | cons frame rest =>
    obtain ⟨hroom, hvalues, hrest⟩ := hframes
    cases frame with
    | item before => exact ⟨hslot, hroom, List.forall_mem_cons.2 ⟨hv, hvalues⟩, hrest⟩
    | member before key =>
      refine ⟨hslot, hroom, fun w hw => ?_, hrest⟩
      obtain ⟨m, hm, rfl⟩ := List.mem_map.1 hw
      rcases Json.Fields.mem_insert hm with hm | heq
      · exact hvalues m.2 (List.mem_map_of_mem hm)
      · exact heq ▸ hv

/-- A literal without nesting has room inside of every literal that is open. -/
theorem Around.supply_flat {frames : Frames} {slot : Slot} (h : Around frames slot) {v : Json}
    (hv : v.nesting = 0) : (Jsx.supply v frames slot).Sound :=
  h.supply (by rw [hv, Nat.zero_add]; exact h.length_le)

/-- A string that ends leads to a sound place. -/
theorem StringRole.Sound.supply {role : StringRole} {slot : Slot} (h : role.Sound slot)
    (text : String) : (role.supply text slot).Sound := by
  cases role with
  | value frames => exact Around.supply_flat h rfl
  | key before frames => exact Around.rekey h text

/-- A name that ends leads to a sound place. -/
theorem NameRole.Sound.supply {role : NameRole} (h : role.Sound) {name : String}
    (hname : IsName name.toList) : (role.supply name).Sound := by
  cases role with
  | closing site => exact h
  | tag site =>
    refine Site.Sound.enter h.1 h.2 fun t ht => ?_
    cases ht
    exact ⟨hname, List.forall_mem_nil _⟩
  | «attribute» t site => exact ⟨hname, h⟩

/-- The words with a meaning stand for values without nesting. -/
theorem nesting_of_wordLiteral? {word : String} {v : Json} (h : wordLiteral? word = some v) :
    v.nesting = 0 := by
  unfold wordLiteral? at h
  split at h
  · cases h; rfl
  split at h
  · cases h; rfl
  split at h
  · cases h; rfl
  · cases h

/-- A word without a meaning is read as a path. -/
theorem not_mem_literalWords {word : String} (h : wordLiteral? word = none) :
    word ∉ literalWords := by
  rintro hmem
  simp only [literalWords, List.mem_cons, List.not_mem_nil, or_false] at hmem
  rcases hmem with rfl | rfl | rfl <;> exact absurd h (by decide)

/-- A word that ends leads to a sound place: as what it means, or as a path. -/
theorem IdentRole.Sound.supply {role : IdentRole} (h : role.Sound) {word : String}
    (hword : IsPath word.toList) {place : Place} (hplace : role.supply word = .ok place) :
    place.Sound := by
  cases role with
  | value slot =>
    simp only [IdentRole.supply] at hplace
    split at hplace
    · next v hv =>
      cases hplace
      exact (Slot.Sound.around h).supply_flat (nesting_of_wordLiteral? hv)
    · next hnone =>
      cases hplace
      refine ⟨h, ⟨hword, not_mem_literalWords hnone⟩, ?_⟩
      rw [Value.nesting, Nat.zero_add]
      exact Slot.Sound.depth_le h
  | literal frames slot =>
    simp only [IdentRole.supply] at hplace
    split at hplace
    · next v hv =>
      cases hplace
      exact Around.supply_flat h (nesting_of_wordLiteral? hv)
    · cases hplace
  | key before frames slot =>
    cases hplace
    exact Around.rekey h word

/-! ### Steps from a place -/

/-- Whatever state the step leads to is inside the grammar. -/
def Leads (r : Except Refusal State) : Prop := ∀ s, r = .ok s → s.Sound

/-- A refusal leads nowhere. -/
theorem leads_error (refusal : Refusal) : Leads (.error refusal) := nofun

theorem leads_ok {s : State} (h : s.Sound) : Leads (.ok s) := by
  rintro _ ⟨⟩
  exact h

theorem leads_goOn {place : Place} (h : place.Sound) : Leads (goOn place) := leads_ok h

/-- Both sides of a decision lead to sound places. -/
theorem leads_ite {p : Prop} [Decidable p] {a b : Except Refusal State} (ha : p → Leads a)
    (hb : ¬ p → Leads b) : Leads (if p then a else b) := by
  split
  · next h => exact ha h
  · next h => exact hb h

theorem leads_beginName (role : NameRole) (h : role.Sound) (c : Char) :
    Leads (beginName role c) :=
  leads_ite (fun hc => leads_ok ⟨h, c, [], rfl, hc, List.forall_mem_nil _⟩) fun _ => leads_error _

/-- A closing tag of the right name closes what is open. -/
theorem leads_close {site : Site} (h : site.Sound) (name : String) : Leads (close site name) := by
  unfold close
  split
  · exact leads_goOn h
  · next o outer hstack =>
    exact leads_ite (fun _ => leads_goOn (h.close hstack)) fun _ => leads_error _

theorem leads_beginLiteral {frames : Frames} {slot : Slot} (h : Around frames slot)
    (role : IdentRole) (hrole : role.Sound) (c : Char) :
    Leads (beginLiteral frames slot role c) :=
  leads_ite (fun _ => leads_goOn h) fun _ =>
  leads_ite (fun _ => leads_ite (fun hroom => leads_goOn (h.cons hroom rfl)) fun _ =>
    leads_error _) fun _ =>
  leads_ite (fun _ => leads_ite (fun hroom => leads_goOn (h.cons hroom rfl)) fun _ =>
    leads_error _) fun _ =>
  leads_ite (fun _ => leads_ok h) fun _ =>
  leads_ite (fun hc => leads_ok ⟨hrole, .inl (.one (isIdentifier_singleton hc))⟩) fun _ =>
  leads_error _

/-- Within a tag. -/
theorem leads_tagStep {t : Tag} {site : Site} (h : (site.enter (some t)).Sound) (c : Char) :
    Leads (tagStep t site c) :=
  leads_ite (fun _ => leads_goOn h) fun _ =>
  leads_ite (fun _ => leads_goOn h) fun _ =>
  leads_ite (fun _ => leads_goOn h) fun _ => leads_beginName (.attribute t site) h c

/-- Behind an angle bracket an element, a fragment or a closing tag begins. -/
theorem leads_angleStep {site : Site} (h : site.Sound) (c : Char) : Leads (angleStep site c) :=
  leads_ite (fun _ => leads_ite (fun _ => leads_error _) fun _ => leads_goOn h) fun _ =>
  leads_ite (fun _ => leads_error _) fun hroom =>
  leads_ite (fun _ => leads_goOn (h.enter (Nat.lt_of_not_le hroom) nofun)) fun _ =>
  leads_beginName (.tag site) ⟨h, Nat.lt_of_not_le hroom⟩ c

/-- Within a string, whatever it stands for. -/
theorem leads_stringStep {quote : Char} {text : String} {part : StringPart} {role : StringRole}
    {slot : Slot} (h : role.Sound slot) (c : Char) :
    Leads (stringStep quote text part role slot c) := by
  cases part with
  | plain =>
    exact leads_ite (fun _ => leads_goOn (h.supply text)) fun _ =>
      leads_ite (fun _ => leads_goOn h) fun _ => leads_goOn h
  | backslash => exact leads_ite (fun _ => leads_goOn h) fun _ => leads_goOn h
  | hex taken code =>
    unfold stringStep
    dsimp only
    split
    · exact leads_error _
    · exact leads_ite (fun _ => leads_goOn h) fun _ => leads_goOn h

/-- **A step from a place stays inside the grammar.** -/
theorem Place.Sound.advance {place : Place} (h : place.Sound) (c : Char) :
    Leads (place.advance c) := by
  cases place with
  | content site =>
    exact leads_ite (fun _ => leads_goOn h) fun hangle => leads_ite (fun _ => leads_goOn h)
      fun hbrace => leads_ok ⟨h, by simpa using Ne.symm hangle, by simpa using Ne.symm hbrace⟩
  | angle site => exact leads_angleStep h c
  | closing site =>
    exact leads_ite (fun _ => leads_goOn h) fun _ => leads_ite (fun _ => leads_close h "") fun _ =>
      leads_beginName (.closing site) h c
  | closingEnd name site =>
    exact leads_ite (fun _ => leads_goOn h) fun _ => leads_ite (fun _ => leads_close h name)
      fun _ => leads_error _
  | tag t site => exact leads_tagStep h c
  | slashEnd t site =>
    -- The element ends as one that was entered and has no children.
    exact leads_ite (fun _ => leads_goOn (Site.Sound.close h rfl)) fun _ => leads_error _
  | «attribute» name t site =>
    exact leads_ite (fun _ => leads_goOn h) fun _ => leads_ite (fun _ => leads_goOn h) fun _ =>
      leads_tagStep (h.2.addAttribute h.1 (h.2.fits_flat rfl)) c
  | attributeValue name t site =>
    exact leads_ite (fun _ => leads_goOn h) fun _ => leads_ite (fun _ => leads_goOn h) fun _ =>
      leads_ite (fun _ => leads_goOn h) fun _ => leads_error _
  | attributeText quote text name t site =>
    exact leads_ite (fun _ => leads_goOn (h.2.addAttribute h.1 (h.2.fits_flat rfl))) fun _ =>
      leads_goOn h
  | value name t site =>
    have hslot : (Slot.attribute name t site).Sound := h
    exact leads_ite (fun _ => leads_goOn h) fun _ =>
      leads_beginLiteral hslot.around (.value (.attribute name t site)) hslot c
  | brace site =>
    have hslot : (Slot.child site).Sound := h
    exact leads_ite (fun _ => leads_goOn h) fun _ => leads_ite (fun _ => leads_goOn h) fun _ =>
      leads_ite (fun _ => leads_goOn h) fun _ =>
      leads_beginLiteral hslot.around (.value (.child site)) hslot c
  | slash site => exact leads_ite (fun _ => leads_goOn h) fun _ => leads_error _
  | comment star site => exact leads_ite (fun _ => leads_goOn h) fun _ => leads_goOn h
  | commentEnd site =>
    exact leads_ite (fun _ => leads_goOn h) fun _ => leads_ite (fun _ => leads_goOn h) fun _ =>
      leads_error _
  | valueEnd v slot =>
    exact leads_ite (fun _ => leads_goOn h) fun _ =>
      leads_ite (fun _ => leads_goOn (h.1.supply h.2)) fun _ => leads_error _
  | listNext before frames slot =>
    have houter : Around frames slot := h.tail
    exact leads_ite (fun _ => leads_goOn h) fun _ =>
      leads_ite (fun _ => leads_goOn (houter.supply (Around.nesting_array h))) fun _ =>
      leads_beginLiteral h (.literal (.item before :: frames) slot) h c
  | listMore before frames slot =>
    have houter : Around frames slot := h.tail
    exact leads_ite (fun _ => leads_goOn h) fun _ => leads_ite (fun _ => leads_goOn h) fun _ =>
      leads_ite (fun _ => leads_goOn (houter.supply (Around.nesting_array h))) fun _ =>
      leads_error _
  | objectNext before frames slot =>
    have houter : Around frames slot := h.tail
    exact leads_ite (fun _ => leads_goOn h) fun _ =>
      leads_ite (fun _ => leads_goOn (houter.supply (Around.nesting_object h))) fun _ =>
      leads_ite (fun _ => leads_goOn h) fun _ =>
      leads_ite (fun hc => leads_ok ⟨h, .inl (.one (isIdentifier_singleton hc))⟩) fun _ =>
      leads_error _
  | colon before key frames slot =>
    exact leads_ite (fun _ => leads_goOn h) fun _ => leads_ite (fun _ => leads_goOn h) fun _ =>
      leads_error _
  | memberValue before key frames slot =>
    exact leads_ite (fun _ => leads_goOn h) fun _ =>
      leads_beginLiteral h (.literal (.member before key :: frames) slot) h c
  | objectMore before frames slot =>
    have houter : Around frames slot := h.tail
    exact leads_ite (fun _ => leads_goOn h) fun _ => leads_ite (fun _ => leads_goOn h) fun _ =>
      leads_ite (fun _ => leads_goOn (houter.supply (Around.nesting_object h))) fun _ =>
      leads_error _
  | string quote text part role slot => exact leads_stringStep h c

/-! ### Steps and runs -/

namespace State.Sound

variable {s : State}

/-- A character that belongs to the piece that is read. -/
theorem extend (h : s.Sound) {c : Char} {longer : State} (hlonger : s.extend? c = some longer) :
    longer.Sound := by
  cases s with
  | «at» place => cases hlonger
  | text read site =>
    simp only [extend?] at hlonger
    split at hlonger
    · cases hlonger
    · next hc =>
      cases hlonger
      obtain ⟨hangle, hbrace⟩ := not_or.1 hc
      exact ⟨h.1, by simp [Ne.symm hangle, h.2.1], by simp [Ne.symm hbrace, h.2.2]⟩
  | name read role =>
    simp only [extend?] at hlonger
    split at hlonger
    · next hc =>
      cases hlonger
      exact ⟨h.1, h.2.cons hc⟩
    · cases hlonger
  | ident read role =>
    simp only [extend?] at hlonger
    split at hlonger
    · next hc =>
      cases hlonger
      exact ⟨h.1, h.2.cons (by simpa using hc)⟩
    · cases hlonger
  | number read frames slot =>
    simp only [extend?] at hlonger
    split at hlonger
    · cases hlonger
      exact h
    · cases hlonger

/-- The end of the piece that is read. -/
theorem settle (h : s.Sound) {next : Option Char} {place : Place}
    (hplace : s.settle next = .ok place) : place.Sound := by
  cases s with
  | «at» p =>
    cases hplace
    exact h
  | text read site =>
    cases hplace
    exact h.1.addText (by simpa using h.2.1) (by simpa using h.2.2)
  | name read role =>
    simp only [State.settle] at hplace
    split at hplace
    · cases hplace
    · next hlast =>
      cases hplace
      exact h.1.supply (h.2.isName hlast)
  | ident read role =>
    simp only [State.settle] at hplace
    split at hplace
    · cases hplace
    · next hlast => exact h.1.supply (h.2.isPath hlast) hplace
  | number read frames slot =>
    simp only [State.settle] at hplace
    split at hplace
    · cases hplace
      exact Around.supply_flat h rfl
    · cases hplace

/-- **A character leads from a sound place to a sound place.** -/
theorem step (h : s.Sound) {c : Char} {next : State} (hnext : s.step c = .ok next) :
    next.Sound := by
  unfold State.step at hnext
  split at hnext
  · next longer hlonger =>
    cases hnext
    exact h.extend hlonger
  · split at hnext
    · next place hplace => exact (h.settle hplace).advance c next hnext
    · cases hnext

/-- Where the source may end, the nodes that were read are inside the grammar. -/
theorem finish (h : s.Sound) {nodes : List Node} (hnodes : s.finish = .ok nodes) :
    nodes ≠ [] ∧ ∀ n ∈ nodes, n.Fits 0 := by
  unfold State.finish at hnodes
  split at hnodes
  · next place hplace =>
    have hsound := h.settle hplace
    cases place with
    | content site =>
      simp only [Place.finish] at hnodes
      split at hnodes
      · cases hnodes
      · next hstack =>
        split at hnodes
        · cases hnodes
        · next hne =>
          cases hnodes
          have hnil : site.stack = [] := by simpa using hstack
          have hfits := hsound.nodes
          rw [hnil] at hfits
          exact ⟨by simpa using hne, fun n hn => hfits n (List.mem_reverse.1 hn)⟩
    | angle site =>
      simp only [Place.finish] at hnodes
      split at hnodes <;> cases hnodes
    | _ => cases hnodes
  · cases hnodes

end State.Sound

theorem State.sound_initial : State.initial.Sound := ⟨trivial, List.forall_mem_nil _⟩

/-- A source leads from a sound place to a sound place. -/
theorem State.sound_of_feed {s s' : State} {source : List Char}
    (h : Text.feed State.step s source = .ok s') (hs : s.Sound) : s'.Sound := by
  induction source generalizing s with
  | nil => cases h; exact hs
  | cons c rest ih =>
    obtain ⟨next, hstep, hrest⟩ := Text.feed_cons_eq_ok_iff.1 h
    exact ih hrest (hs.step hstep)

/-- **What is accepted is inside the grammar.**  A source that is read has a node; elements,
fragments and literal containers are nested at most 64 deep in each of its nodes; and all names,
texts and identifiers of the tree are those of the restricted grammar. -/
theorem parse_restricted {source : List Char} {nodes : List Node} (h : parse source = .ok nodes) :
    nodes ≠ [] ∧ ∀ n ∈ nodes, n.nesting ≤ 64 ∧ n.Restricted := by
  unfold parse at h
  split at h
  · cases h
  · next s hfeed =>
    split at h
    · next nodes' hfinish =>
      cases h
      obtain ⟨hne, hfits⟩ := (State.sound_of_feed hfeed State.sound_initial).finish hfinish
      exact ⟨hne, fun n hn => ⟨(hfits n hn).room, (hfits n hn).restricted⟩⟩
    · cases h

/-- A path may begin with a word; only as a whole it is none. -/
theorem parse_restricted_path :
    parse "<A b={true.x}> c\n d</A>".toList =
        .ok [.element "A" [⟨"b", .ident "true.x"⟩] [.text "c d"]] ∧
      ∀ n ∈ [Node.element "A" [⟨"b", .ident "true.x"⟩] [.text "c d"]],
        n.nesting ≤ 64 ∧ n.Restricted := by
  have hparse : parse "<A b={true.x}> c\n d</A>".toList =
      .ok [.element "A" [⟨"b", .ident "true.x"⟩] [.text "c d"]] := rfl
  exact ⟨hparse, (parse_restricted hparse).2⟩

end AgentSurface.Jsx
