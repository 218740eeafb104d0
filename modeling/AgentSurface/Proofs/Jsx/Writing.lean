import AgentSurface.Proofs.Jsx.Source

/-!
# Jsx — every tree of the restricted grammar is read back

`WritableNodes` says of a tree, without its source, that the restricted grammar has it.  Such a tree
has a spelling: with double quotes, values in braces and no comments, for example.

* `exists_children`: that spelling.
* `parse_spelling`: a tree of the restricted grammar is read back from each of its spellings.
-/

namespace AgentSurface

/-! ### Which trees can be written -/

namespace Jsx

/-- The value can be written: a literal of whole numbers, or a path that is no word with a meaning.
-/
def Value.Writable : Value → Prop
  | .literal v => v.Writable
  | .ident path => IsPath path.toList ∧ path ∉ literalWords

/-- The node is a text, which has no delimiters of its own. -/
def Node.isText : Node → Bool
  | .text _ => true
  | .element _ _ _ | .fragment _ | .expression _ => false

mutual

/-- Names, texts, paths and literals are those of the restricted grammar. -/
def Node.Writable (atTop : Bool) : Node → Prop
  | .element name attributes children => IsName name.toList ∧
      (∀ a ∈ attributes, IsName a.name.toList ∧ a.value.Writable) ∧ WritableNodes false children
  | .fragment children => WritableNodes false children
  | .text text => IsText atTop text.toList
  | .expression v => v.Writable

/-- No two texts stand side by side. -/
def WritableNodes (atTop : Bool) : List Node → Prop
  | [] => True
  | n :: rest => n.Writable atTop ∧ (n.isText = true → ∀ m ∈ rest.head?, m.isText = false) ∧
      WritableNodes atTop rest

end

/-! ### Literals -/

theorem blanks_nil : Blanks [] := List.forall_mem_nil _

theorem blanks_space : Blanks [' '] := List.forall_mem_singleton.2 rfl

/-- Every text can be spelled between quotes. -/
theorem exists_quoted (text : List Char) : ∃ s, Quoted '"' text s := by
  induction text with
  | nil => exact ⟨[], .done⟩
  | cons c text ih =>
    obtain ⟨s, hs⟩ := ih
    by_cases hc : c = '"' ∨ c = '\\'
    · have hplain : c ∉ ['u', 'n', 't', 'r', 'b', 'f'] := by
        rcases hc with rfl | rfl <;> decide
      exact ⟨'\\' :: c :: s, .escape (.itself hplain) hs⟩
    · obtain ⟨hquote, hslash⟩ := not_or.1 hc
      exact ⟨c :: s, .plain hquote hslash hs⟩

mutual

/-- Every writable value has a spelling; the cases are those of the value. -/
theorem exists_literal : ∀ v : Json, v.Writable → ∃ s, Literal.Spells (.value v) s
  | .null, _ => ⟨_, .null⟩
  | .bool true, _ => ⟨_, .yes⟩
  | .bool false, _ => ⟨_, .no⟩
  | .number n, h => by
    obtain ⟨w, rfl⟩ := h
    exact ⟨_, .number w⟩
  | .string text, _ => by
    obtain ⟨s, hs⟩ := exists_quoted text.toList
    exact ⟨_, .string rfl hs⟩
  | .array items, h => by
    obtain ⟨s, hs⟩ := exists_items items h
    exact ⟨_, .array hs⟩
  | .object members, h => by
    obtain ⟨hkeys, hmembers⟩ := h
    obtain ⟨s, hs⟩ := exists_members members hmembers
    exact ⟨_, .object hkeys hs⟩

theorem exists_items : ∀ items : List Json, Json.WritableItems items →
    ∃ s, Literal.Spells (.items items) s
  | [], _ => ⟨_, .noItem blanks_nil⟩
  | v :: rest, h => by
    obtain ⟨hv, hrest⟩ := h
    obtain ⟨s, hs⟩ := exists_literal v hv
    obtain ⟨tail, htail⟩ := exists_items rest hrest
    exact ⟨_, .item blanks_nil hs blanks_nil htail⟩

theorem exists_members : ∀ members : List (String × Json), Json.WritableMembers members →
    ∃ s, Literal.Spells (.members members) s
  | [], _ => ⟨_, .noMember blanks_nil⟩
  | (key, v) :: rest, h => by
    obtain ⟨hv, hrest⟩ := h
    obtain ⟨k, hk⟩ := exists_quoted key.toList
    obtain ⟨s, hs⟩ := exists_literal v hv
    obtain ⟨tail, htail⟩ := exists_members rest hrest
    exact ⟨_, .more blanks_nil (.member (.quoted rfl hk) blanks_nil blanks_nil hs) blanks_nil htail⟩

end

/-- Every writable value of an attribute has a spelling. -/
theorem exists_value {v : Value} (h : v.Writable) : ∃ s, SpellsValue v s := by
  cases v with
  | literal v =>
    obtain ⟨s, hs⟩ := exists_literal v h
    exact ⟨s, .literal hs⟩
  | ident path => exact ⟨_, .ident h.1 h.2⟩

/-! ### Nodes -/

/-- Attributes are spelled one after the other, each with a blank before it. -/
theorem exists_attributes (named : Bool) {attributes : List Attribute}
    (h : ∀ a ∈ attributes, IsName a.name.toList ∧ a.value.Writable) :
    ∃ s, SpellsAttributes named attributes s := by
  induction attributes generalizing named with
  | nil => exact ⟨[], .done blanks_nil⟩
  | cons a rest ih =>
    obtain ⟨hname, hvalue⟩ := h a (by simp)
    obtain ⟨s, hs⟩ := exists_value hvalue
    obtain ⟨tail, htail⟩ := ih false fun b hb => h b (by simp [hb])
    exact ⟨_, .more blanks_space (by simp) hname
      (.braced blanks_nil blanks_nil blanks_nil hs blanks_nil) htail⟩

mutual

/-- Every writable node but a text has a spelling. -/
theorem exists_node : ∀ (n : Node) (atTop : Bool), n.Writable atTop → n.isText = false →
    ∃ s, Spells (.node n) s
  | .element name attributes children, _, h, _ => by
    obtain ⟨hname, hattributes, hchildren⟩ := h
    obtain ⟨a, ha⟩ := exists_attributes true hattributes
    obtain ⟨s, hs⟩ := exists_children children false true hchildren (by simp)
    exact ⟨_, .element hname ha hs blanks_nil blanks_nil⟩
  | .fragment children, _, h, _ => by
    obtain ⟨s, hs⟩ := exists_children children false true h (by simp)
    exact ⟨_, .fragment hs blanks_nil⟩
  | .expression v, _, h, _ => by
    obtain ⟨s, hs⟩ := exists_value h
    exact ⟨_, .expression blanks_nil hs blanks_nil⟩
  | .text _, _, _, h => absurd h (by simp [Node.isText])

/-- Writable children have a spelling if no text follows directly on another. -/
theorem exists_children : ∀ (nodes : List Node) (atTop free : Bool), WritableNodes atTop nodes →
    (free = false → ∀ n ∈ nodes.head?, n.isText = false) →
      ∃ s, Spells (.children atTop free nodes) s
  | [], _, _, _, _ => ⟨_, .done⟩
  | n :: rest, atTop, free, h, hfree => by
    obtain ⟨hn, hnext, hrest⟩ := h
    cases htext : n.isText with
    | true =>
      -- Behind a text no other can stand, and before this one none does.
      obtain ⟨tail, htail⟩ := exists_children rest atTop false hrest fun _ => hnext htext
      cases free with
      | false => exact absurd (hfree rfl n rfl) (by simp [htext])
      | true =>
        cases n with
        | text text => exact ⟨_, .text hn htail⟩
        | element | fragment | expression => exact absurd htext (by simp [Node.isText])
    | false =>
      obtain ⟨s, hs⟩ := exists_node n atTop hn htext
      obtain ⟨tail, htail⟩ := exists_children rest atTop true hrest (by simp)
      exact ⟨_, .child hs htail⟩

end

/-- **Every tree of the restricted grammar is read back.**  It has a spelling, and each of its
spellings is read as the tree, unless the tree is nested deeper than the limit: then the reader says
so. -/
theorem parse_spelling {nodes : List Node} (hne : nodes ≠ []) (h : WritableNodes true nodes) :
    (∃ source, Spells (.children true true nodes) source) ∧
      ∀ source, Spells (.children true true nodes) source →
        parse source =
          if nestingNodes nodes ≤ maxDepth then .ok nodes else .error (.tooDeep maxDepth) :=
  ⟨exists_children nodes true true h (by simp), fun _ hsource => hsource.parse hne⟩

/-- An attribute without a value, and a text. -/
theorem parse_spelling_bare :
    parse ['<', 'A', ' ', 'b', '>', 'h', 'i', '<', '/', 'A', '>'] =
      .ok [.element "A" [⟨"b", .literal (.bool true)⟩] [.text "hi"]] := by
  have hA : IsName "A".toList := ⟨⟨'A', [], rfl, rfl, List.forall_mem_nil _⟩, by decide⟩
  have hb : IsName "b".toList := ⟨⟨'b', [], rfl, rfl, List.forall_mem_nil _⟩, by decide⟩
  have hhi : IsText false "hi".toList :=
    ⟨by decide, by decide, by simp [Text.isBlank], by decide, fun h => absurd h Bool.false_ne_true⟩
  have hwritable :
      WritableNodes true [.element "A" [⟨"b", .literal (.bool true)⟩] [.text "hi"]] := by
    simpa [WritableNodes, Node.Writable, Value.Writable, Json.Writable] using ⟨hA, hb, hhi⟩
  have hsource :
      Spells (.children true true [.element "A" [⟨"b", .literal (.bool true)⟩] [.text "hi"]])
        ['<', 'A', ' ', 'b', '>', 'h', 'i', '<', '/', 'A', '>'] :=
    .child (.element hA (.more blanks_space (by simp) hb .bare (.done blanks_nil))
      (.text hhi .done) blanks_nil blanks_nil) .done
  exact (parse_spelling (by simp) hwritable).2 _ hsource

end Jsx
end AgentSurface
