import AgentSurface.Proofs.Jsx.DescentLiterals
import AgentSurface.Proofs.Jsx.Literals

/-!
# Jsx — a descent comes to its end

A descent reads every source to its end or halts at a fault, and gives what `parse` gives
(`descend_reads_all`).  It does not halt for any other reason: no loop goes round without moving the
cursor forward, no cursor comes behind the end of the source, and no more is open at once than the
limit allows.

The proof follows the descent from the inside out.  What a tag, an attribute or a child leads to is
said at the places of the machine that it stands at, for all literals (`ReadsLiteral`) and all
children inside it (`ReadsChildren`) that are read as they should; only `leads_children` ties the
knot, by induction on the levels that are left.
-/

namespace AgentSurface.Jsx
namespace Descent

open Text (isBlank)

variable {source : List Char} {v : Except Fault (List Node)} {c : Cursor source} {p : Place}
  {ch : Char} {literal : Descent source Json} {site : Site}

/-! ### Values -/

section Values

variable {slot : Slot} {α : Type}

theorem leads_value (hliteral : ReadsLiteral v literal c.depth) (hslot : slot.depth = c.depth)
    (hv : verdict source (.at p) c.pos = v)
    (hp : AwaitsLiteral p [] slot (.value slot) source[c.pos]?) :
    Leads v (value literal) c fun x c' =>
      c < c' ∧ verdict source (.at (.valueEnd x slot)) c'.pos = v := by
  have hlead : (∀ d, source[c.pos]? = some d → isIdentStart d = false) →
      Leads v (do return Value.literal (← literal)) c fun x c' =>
        c < c' ∧ verdict source (.at (.valueEnd x slot)) c'.pos = v := fun hno => by
    rw [leads_bind]
    exact hliteral hv hp rfl hslot fun d hd hstart => by simp [hno d hd] at hstart
  rw [value, leads_bind, leads_peek]
  cases hnext : source[c.pos]? with
  | none => exact hlead (by simp [hnext])
  | some d =>
    dsimp only
    split
    · next hstart =>
      rw [leads_bind]
      refine (leads_identPath hv hnext hstart ((hp.advance d hnext).trans
        (beginLiteral_of_isIdentStart hstart))).mono ?_
      rintro path c' ⟨hreach, -, hpath⟩
      refine ⟨hreach, ?_⟩
      rw [hpath, IdentRole.supply]
      cases wordLiteral? path <;> rfl
    · next hstart =>
      exact hlead (forall_next hnext (Bool.eq_false_iff.2 hstart))

/-- A value, and the brace behind it. -/
theorem leads_braced (slot : Slot) {k : Value → Descent source α} {post : α → Cursor source → Prop}
    (hliteral : ReadsLiteral v literal c.depth) (hslot : slot.depth = c.depth)
    (hv : verdict source (.at p) c.pos = v)
    (hp : AwaitsLiteral p [] slot (.value slot) source[c.pos]?)
    (hk : ∀ x c', c < c' → verdict source (.at (slot.supply x)) c'.pos = v →
      Leads v (k x) c' post) :
    Leads v (do
      let x ← value literal
      skipBlanks
      expect '}' .brace
      k x) c post := by
  rw [leads_bind]
  refine (leads_value hliteral hslot hv hp).mono ?_
  rintro x c₁ ⟨hreach, hend⟩
  refine leads_wanted (c := c₁) (p := .valueEnd x slot) ⟨rfl, fun d hblank hne => by
    simp [Place.advance, hblank, hne], rfl⟩ hend fun c₂ hbrace hreach' hend' => ?_
  exact hk x _ (hreach.trans (hreach'.trans_lt (Cursor.lt_next hbrace)))
    (verdict_advance hend' hbrace rfl)

end Values

/-! ### Attributes -/

section Attributes

variable {key : String} {t : Tag}

/-- The text of an attribute, behind its quote. -/
theorem leads_attributeText {quote : Char}
    (hv : verdict source (.at (.attributeText quote "" key t site)) c.pos = v) :
    Leads v (loop (attributeTextRound quote) "") c fun text c' =>
      c < c' ∧
        verdict source (.at (.tag (t.add key (.literal (.string text))) site)) c'.pos = v := by
  refine leads_loop (fun text c' => c ≤ c' ∧
    verdict source (.at (.attributeText quote text key t site)) c'.pos = v) ?_
    ⟨le_rfl, hv⟩
  rintro text c₁ ⟨hreach, htext⟩
  rw [attributeTextRound, leads_bind]
  cases hd : source[c₁.pos]? with
  | none =>
    rw [leads_bump_none hd]
    exact leads_blame.2 (verdict_finish htext hd rfl)
  | some d =>
    rw [leads_bump_some hd]
    by_cases hend : d = quote
    · have hdone : (Place.attributeText quote text key t site).advance d =
          goOn (.tag (t.add key (.literal (.string text))) site) := if_pos hend
      simp only [if_pos hend, leads_pure]
      exact ⟨hreach.trans_lt (Cursor.lt_next hd),
        verdict_advance htext hd hdone⟩
    · have hmore : (Place.attributeText quote text key t site).advance d =
          goOn (.attributeText quote (text.push d) key t site) := if_neg hend
      simp only [if_neg hend, leads_pure]
      exact ⟨Nat.lt_succ_self _, hreach.trans (Cursor.lt_next hd).le,
        verdict_advance htext hd hmore⟩

theorem leads_attributeValue (hliteral : ReadsLiteral v literal c.depth)
    (hsite : site.stack.length + 1 = c.depth)
    (hv : verdict source (.at (.attributeValue key t site)) c.pos = v)
    (hblank : ∀ d, source[c.pos]? = some d → isBlank d = false) :
    Leads v (attributeValue literal) c fun x c' =>
      c < c' ∧ verdict source (.at (.tag (t.add key x) site)) c'.pos = v := by
  have hadvance : ∀ d, source[c.pos]? = some d → (Place.attributeValue key t site).advance d =
      if isQuote d then goOn (.attributeText d "" key t site)
      else if d = '{' then goOn (.value key t site)
      else refuse d .attributeValue := fun d hd => by simp [Place.advance, hblank d hd]
  have hrefuse : (∀ d, source[c.pos]? = some d → isQuote d = false ∧ d ≠ '{') →
      v = .error ((Refusal.unexpected source[c.pos]? 0 .attributeValue).fault source c.pos) :=
    fun hno => verdict_expected hv (fun d hd => by simp [hadvance d hd, hno d hd]) fun _ => rfl
  rw [attributeValue, leads_bind, leads_peek]
  cases hnext : source[c.pos]? with
  | none => exact leads_expected.2 (hrefuse (by simp [hnext]))
  | some d =>
    have hd := hadvance d hnext
    dsimp only
    split
    · next hquote =>
      rw [if_pos hquote] at hd
      rw [leads_bind, leads_forward_one hnext, leads_bind]
      refine (leads_attributeText (c := c.next hnext)
        (verdict_advance hv hnext hd)).mono ?_
      rintro text c' ⟨hreach, htext⟩
      exact ⟨Cursor.lt_of_next hreach.le, htext⟩
    next hquote =>
    rw [if_neg hquote] at hd
    split
    · next hbrace =>
      rw [if_pos hbrace] at hd
      rw [leads_bind, leads_forward_one hnext, leads_bind]
      refine (leads_skipBlanks (c := c.next hnext) rfl
        (verdict_advance hv hnext hd)).mono ?_
      rintro - c₁ ⟨hreach, hvalue, hblank₁⟩
      refine leads_braced (.attribute key t site) (hreach.2 ▸ hliteral)
        (hsite.trans hreach.2.symm) hvalue
        ⟨fun e he => by simp [Place.advance, hblank₁ e he, beginValue], fun _ => rfl⟩
        fun x c₂ hreach₂ hsupply => ⟨(Cursor.lt_of_next hreach).trans hreach₂, hsupply⟩
    · next hbrace =>
      exact leads_expected.2 (hrefuse (forall_next hnext ⟨Bool.eq_false_iff.2 hquote, hbrace⟩))

theorem leads_oneAttribute (hliteral : ReadsLiteral v literal c.depth)
    (hsite : site.stack.length + 1 = c.depth) (hv : verdict source (.at p) c.pos = v)
    (hp : AwaitsName p (.attribute t site) source[c.pos]?) :
    Leads v (oneAttribute literal) c fun a c' =>
      c < c' ∧ verdict source (.at (.tag (t.add a.name a.value) site)) c'.pos = v := by
  rw [oneAttribute, leads_bind]
  refine (leads_name hv hp).mono ?_
  rintro key c₁ ⟨hreach₁, hkey⟩
  rw [leads_bind]
  refine (leads_skipBlanks (p := .attribute key t site) rfl hkey).mono ?_
  rintro - c₂ ⟨hreach₂, hkey₂, hblank₂⟩
  have hreach := hreach₁.trans_le hreach₂
  rw [leads_bind]
  by_cases hequals : source[c₂.pos]? = some '='
  · rw [leads_eat_some hequals, if_pos rfl, leads_bind]
    refine (leads_skipBlanks (c := c₂.next hequals) (p := .attributeValue key t site) rfl
      (verdict_advance hkey₂ hequals rfl)).mono ?_
    rintro - c₃ ⟨hreach₃, hvalue, hblank₃⟩
    have hreach' := hreach.trans (Cursor.lt_of_next hreach₃)
    rw [leads_bind]
    refine (leads_attributeValue (hreach'.2 ▸ hliteral) (hsite.trans hreach'.2.symm)
      hvalue hblank₃).mono ?_
    rintro x c₄ ⟨hreach₄, htag⟩
    exact ⟨hreach'.trans hreach₄, htag⟩
  · rw [leads_eat_other hequals, if_neg Bool.false_ne_true]
    -- An attribute that is set to nothing is over, as if its value were there already.
    have hbare : verdict source (.at (.attribute key t site)) c₂.pos =
        verdict source (.at (.tag (t.add key (.literal (.bool true))) site)) c₂.pos := by
      refine verdict_congr (fun d hd => ?_) fun _ => rfl
      simp [Place.advance, hblank₂ d hd, ne_of_next hequals hd]
    exact ⟨hreach, hbare.symm.trans hkey₂⟩

/-- The attributes of a tag, and its end: children follow behind it, or it is closed. -/
theorem leads_tag {opened : String} (hliteral : ReadsLiteral v literal c.depth)
    (hsite : site.stack.length + 1 = c.depth)
    (hv : verdict source (.at (.tag ⟨opened, []⟩ site)) c.pos = v) :
    Leads v (loop (tagRound literal) []) c fun read c' =>
      c < c' ∧ verdict source (.at (.content (if read.2
        then site.enter (some ⟨opened, read.1⟩)
        else site.add (.element opened read.1.reverse [])))) c'.pos = v := by
  refine leads_loop (fun attributes c' => c ≤ c' ∧
    verdict source (.at (.tag ⟨opened, attributes⟩ site)) c'.pos = v) ?_
    ⟨le_rfl, hv⟩
  rintro attributes c₁ ⟨hreach₁, htag₁⟩
  rw [tagRound, leads_bind]
  refine (leads_skipBlanks rfl htag₁).mono ?_
  rintro - c₂ ⟨hreach₂, htag, hblank⟩
  have hreach := hreach₁.trans hreach₂
  rw [leads_bind, leads_peek]
  split
  · next hslash =>
    rw [leads_bind, leads_forward_one hslash, leads_bind]
    have hend : verdict source (.at (.slashEnd ⟨opened, attributes⟩ site)) (c₂.pos + 1) = v :=
      verdict_advance htag hslash rfl
    refine leads_expect (c := c₂.next hslash) (fun hclose => ?_) fun hne => ?_
    · exact ⟨(hreach.trans_lt (Cursor.lt_next hslash)).trans
        (Cursor.lt_next hclose),
        verdict_advance hend hclose rfl⟩
    · exact verdict_expected hend (fun d hd => if_neg (ne_of_next hne hd)) fun _ => rfl
  · next hclose =>
    rw [leads_bind, leads_forward_one hclose]
    exact ⟨hreach.trans_lt (Cursor.lt_next hclose),
      verdict_advance htag hclose rfl⟩
  · next d hslash hclose hd =>
    have hstart : (Place.tag ⟨opened, attributes⟩ site).advance d =
        beginName (.attribute ⟨opened, attributes⟩ site) d := by
      simp [Place.advance, tagStep, hblank d hd, show d ≠ '/' from hslash, show d ≠ '>' from hclose]
    have hawaits : AwaitsName (.tag ⟨opened, attributes⟩ site)
        (.attribute ⟨opened, attributes⟩ site) source[c₂.pos]? :=
      { advance := forall_next hd hstart
        finish := fun hnone => by simp [hnone] at hd }
    rw [leads_bind]
    refine (leads_oneAttribute (hreach.2 ▸ hliteral) (hsite.trans hreach.2.symm) htag
      hawaits).mono ?_
    rintro a c₃ ⟨hreach₃, hmore⟩
    exact ⟨(hreach₂.trans_lt hreach₃).1, hreach.trans hreach₃.le, hmore⟩
  · next hnone =>
    exact leads_expected.2 (verdict_expected htag (fun d hd => by simp [hnone] at hd) fun _ => rfl)

end Attributes

/-! ### Values and comments in braces -/

/-- A comment, behind its opening: it ends at the first star with a slash behind it. -/
theorem leads_comment (hv : verdict source (.at (.comment false site)) c.pos = v) :
    Leads v (loop commentRound ()) c fun _ c' =>
      c < c' ∧ verdict source (.at (.commentEnd site)) c'.pos = v := by
  -- Behind a star the machine waits for a slash; a round that goes on has seen that there is none.
  refine leads_loop (fun _ c' => c ≤ c' ∧ ∃ star,
    verdict source (.at (.comment star site)) c'.pos = v ∧
      (star = true → source[c'.pos]? ≠ some '/')) ?_ ⟨le_rfl, false, hv, nofun⟩
  rintro - c₁ ⟨hreach, star, hcomment, hstar⟩
  rw [commentRound, leads_bind, leads_startsWith]
  by_cases hend : source[c₁.pos]? = some '*' ∧ source[c₁.pos + 1]? = some '/'
  · have hroom : c₁.pos + 2 ≤ source.length := (List.getElem?_eq_some_iff.1 hend.2).1
    have hfirst : (Place.comment star site).advance '*' = goOn (.comment true site) := by
      cases star <;> rfl
    rw [decide_eq_true hend, if_pos rfl, leads_bind, leads_forward hroom]
    exact ⟨hreach.trans_lt (Cursor.lt_past (by decide) hroom),
      verdict_advance (verdict_advance hcomment hend.1 hfirst) hend.2 rfl⟩
  · rw [decide_eq_false hend, if_neg Bool.false_ne_true, leads_bind]
    cases hd : source[c₁.pos]? with
    | none =>
      rw [leads_bump_none hd]
      exact leads_blame.2 (verdict_finish hcomment hd rfl)
    | some d =>
      have hmore : (Place.comment star site).advance d = goOn (.comment (d == '*') site) := by
        refine if_neg ?_
        rw [Bool.and_eq_true, beq_iff_eq]
        rintro ⟨h, rfl⟩
        exact hstar h hd
      rw [leads_bump_some hd]
      refine ⟨Nat.lt_succ_self _, hreach.trans (Cursor.lt_next hd).le, _,
        verdict_advance hcomment hd hmore, fun hstar' hslash => hend ⟨?_, hslash⟩⟩
      rw [hd, beq_iff_eq.1 hstar']

/-- A character that is refused with the one behind it is refused where it stands itself. -/
theorem fault_back (what : Expected) (pos : Nat) :
    (Refusal.unexpected (some ch) 1 what).fault source (pos + 1) =
      (Refusal.unexpected (some ch) 0 what).fault source pos := rfl

/-- Behind the brace of a child, if no comment begins and the brace is not closed, a literal is
awaited: at the brace itself, or, since a slash is taken there, at a place where it is not. -/
theorem exists_awaitsLiteral {pos : Nat} (hv : verdict source (.at (.brace site)) pos = v)
    (hblank : ∀ d, source[pos]? = some d → isBlank d = false)
    (hopen : ¬ (source[pos]? = some '/' ∧ source[pos + 1]? = some '*'))
    (hclose : source[pos]? ≠ some '}') :
    ∃ q, verdict source (.at q) pos = v ∧
      AwaitsLiteral q [] (.child site) (.value (.child site)) source[pos]? := by
  by_cases hslash : source[pos]? = some '/'
  · refine ⟨.listNext [] [] (.child site), ?_, ?_⟩
    · have hrefused : verdict source (.at (.slash site)) (pos + 1) =
          .error ((Refusal.unexpected (some '/') 1 .literal).fault source (pos + 1)) := by
        cases hnext : source[pos + 1]? with
        | none => exact verdict_finish rfl hnext rfl
        | some d =>
          refine verdict_refused rfl hnext (if_neg ?_)
          rintro rfl
          exact hopen ⟨hslash, hnext⟩
      have hbehind : verdict source (.at (.slash site)) (pos + 1) = v :=
        verdict_advance hv hslash rfl
      rw [← hbehind, hrefused, fault_back]
      exact verdict_refused rfl hslash rfl
    · rw [hslash]
      exact ⟨fun d hd => Option.some.inj hd ▸ rfl, nofun⟩
  · refine ⟨.brace site, hv, fun d hd => ?_, fun _ => rfl⟩
    simp [Place.advance, hblank d hd, ne_of_next hslash hd, ne_of_next hclose hd, beginValue]

/-- A value in braces, a comment or nothing. -/
theorem leads_expression (hliteral : ReadsLiteral v literal c.depth)
    (hsite : site.stack.length = c.depth) (hv : verdict source (.at (.content site)) c.pos = v)
    (hnext : source[c.pos]? = some '{') :
    Leads v (expression literal) c fun node c' =>
      c < c' ∧
        verdict source (.at (.content ((node.map site.add).getD site))) c'.pos = v := by
  rw [expression, leads_bind, leads_take hnext, leads_bind]
  refine (leads_skipBlanks (c := c.next hnext) (p := .brace site) rfl
    (verdict_advance hv hnext rfl)).mono ?_
  rintro - c₁ ⟨hreach₁, hbrace, hblank⟩
  have hreach := Cursor.lt_of_next hreach₁
  rw [leads_bind, leads_startsWith]
  by_cases hopen : source[c₁.pos]? = some '/' ∧ source[c₁.pos + 1]? = some '*'
  · have hroom : c₁.pos + 2 ≤ source.length := (List.getElem?_eq_some_iff.1 hopen.2).1
    rw [decide_eq_true hopen, if_pos rfl, leads_bind, leads_forward hroom, leads_bind]
    refine (leads_comment (c := c₁.past 2 hroom)
      (verdict_advance (verdict_advance hbrace hopen.1 rfl) hopen.2 rfl)).mono ?_
    rintro - c₂ ⟨hreach₂, hend⟩
    refine leads_wanted (c := c₂) (p := .commentEnd site) ⟨rfl, fun d hblank hne => by
      simp [Place.advance, hblank, hne], rfl⟩ hend fun c₃ hclose hreach₃ hend' => ?_
    refine ⟨?_, verdict_advance hend' hclose rfl⟩
    exact (hreach.trans (Cursor.lt_past (by decide) hroom)).trans
      ((hreach₂.trans_le hreach₃).trans (Cursor.lt_next hclose))
  rw [decide_eq_false hopen, if_neg Bool.false_ne_true, leads_bind]
  by_cases hclose : source[c₁.pos]? = some '}'
  · rw [leads_eat_some hclose]
    exact ⟨hreach.trans (Cursor.lt_next hclose),
      verdict_advance hbrace hclose rfl⟩
  · rw [leads_eat_other hclose, if_neg Bool.false_ne_true]
    obtain ⟨q, hq, hawaits⟩ := exists_awaitsLiteral hbrace hblank hopen hclose
    refine leads_braced (.child site) (hreach.2 ▸ hliteral)
      (hsite.trans hreach.2.symm) hq hawaits fun x c₂ hreach₂ hsupply => ?_
    exact ⟨hreach.trans hreach₂, hsupply⟩

/-! ### Elements and children -/

/-- The children are over: the source is, or what is open around them is closed. -/
def ChildrenEnd (v : Except Fault (List Node)) (stack : List Open) (nodes : List Node)
    (c : Cursor source) : Prop :=
  match stack with
  | [] => source[c.pos]? = none ∧ verdict source (.at (.content ⟨nodes.reverse, []⟩)) c.pos = v
  | o :: outer => verdict source (.at (.content ⟨o.node nodes :: o.before, outer⟩)) c.pos = v

/-- Where so many things are open, this part of a descent reads the children of the last one. -/
def ReadsChildren (v : Except Fault (List Node))
    (inside : String → Descent source (List Node)) (depth : Nat) : Prop :=
  ∀ ⦃c : Cursor source⦄ ⦃o : Open⦄ ⦃outer : List Open⦄, c.depth = depth →
    outer.length + 1 = depth → verdict source (.at (.content ⟨[], o :: outer⟩)) c.pos = v →
    Leads v (inside o.name) c fun nodes c' =>
      c ≤ c' ∧ ChildrenEnd v (o :: outer) nodes c'

/-- Where so many things are open, this part of a descent reads the rest of the last one, an element
or a fragment, behind its bracket. -/
def ReadsElement (v : Except Fault (List Node)) (element : Descent source Node) (depth : Nat) :
    Prop :=
  ∀ ⦃c : Cursor source⦄ ⦃site : Site⦄, c.depth = depth → site.stack.length + 1 = depth →
    site.stack.length < maxDepth → verdict source (.at (.angle site)) c.pos = v →
    source[c.pos]? ≠ some '/' →
    Leads v element c fun node c' =>
      c ≤ c' ∧ verdict source (.at (.content (site.add node))) c'.pos = v

theorem readsElement_element {inside : String → Descent source (List Node)} {depth : Nat}
    (hliteral : ReadsLiteral v literal depth) (hinside : ReadsChildren v inside depth) :
    ReadsElement v (element literal inside) depth := by
  intro c site hc hsite hroom hv hslash
  subst hc
  have hadvance : ∀ d, source[c.pos]? = some d → (Place.angle site).advance d =
      if d = '>' then goOn (.content (site.enter none)) else beginName (.tag site) d := by
    intro d hd
    simp [Place.advance, angleStep, ne_of_next hslash hd, Nat.not_le.2 hroom]
  rw [element, leads_bind]
  by_cases hempty : source[c.pos]? = some '>'
  · have hfirst : verdict source (.at (.content (site.enter none))) (c.next hempty).pos = v :=
      verdict_advance hv hempty (hadvance '>' hempty)
    rw [leads_eat_some hempty, if_pos rfl, leads_bind]
    refine (hinside (c := c.next hempty) (o := ⟨none, site.nodes⟩) rfl hsite hfirst).mono ?_
    rintro children c₁ ⟨hreach, hend⟩
    exact ⟨(Cursor.lt_of_next hreach).le, hend⟩
  · have hawaits : AwaitsName (.angle site) (.tag site) source[c.pos]? :=
      { advance := fun d hd => (hadvance d hd).trans (if_neg (ne_of_next hempty hd))
        finish := fun _ => if_neg (Nat.not_le.2 hroom) }
    rw [leads_eat_other hempty, if_neg Bool.false_ne_true, leads_bind]
    refine (leads_name hv hawaits).mono ?_
    rintro opened c₁ ⟨hreach₁, htag⟩
    rw [leads_bind]
    refine (leads_tag (hreach₁.2 ▸ hliteral) (hsite.trans hreach₁.2.symm) htag).mono ?_
    rintro ⟨attributes, parted⟩ c₂ ⟨hreach₂, hend⟩
    have hreach := hreach₁.trans hreach₂
    cases parted with
    | false => exact ⟨hreach.le, hend⟩
    | true =>
      refine leads_bind.2 ((hinside (c := c₂) (o := ⟨some ⟨opened, attributes⟩, site.nodes⟩)
        hreach.2 hsite hend).mono ?_)
      rintro children c₃ ⟨hreach₃, hclosed⟩
      exact ⟨(hreach.trans_le hreach₃).le, hclosed⟩

section Children

variable {element : Descent source Node} {stack : List Open} {nodes : List Node}

/-- An element or a fragment, from its bracket on, if there is room for it. -/
theorem leads_element (helement : c.depth < maxDepth → ReadsElement v element (c.depth + 1))
    (hsite : site.stack.length = c.depth) (hv : verdict source (.at (.content site)) c.pos = v)
    (hnext : source[c.pos]? = some '<') (hslash : source[c.pos + 1]? ≠ some '/') :
    Leads v (bracketed '<' element) c fun node c' =>
      c < c' ∧ verdict source (.at (.content (site.add node))) c'.pos = v := by
  have hangle : verdict source (.at (.angle site)) (c.pos + 1) = v :=
    verdict_advance hv hnext rfl
  refine leads_bracketed (fun node pos => verdict source (.at (.content (site.add node))) pos = v)
    hnext (fun c₁ hroom hpos hdepth => ?_) fun hfull => ?_
  · rw [← hpos] at hangle hslash
    exact helement hroom hdepth (by rw [hsite]) (hsite ▸ hroom) hangle hslash
  · have hdeep : maxDepth ≤ site.stack.length := hsite ▸ Nat.not_lt.1 hfull
    cases hd : source[c.pos + 1]? with
    | none =>
      have hfinish : (Place.angle site).finish = .error .tooDeep := if_pos hdeep
      exact verdict_finish hangle hd hfinish
    | some d =>
      have hrefused : (Place.angle site).advance d = .error .tooDeep := by
        simp [Place.advance, angleStep, ne_of_next hslash hd, hdeep]
      exact verdict_refused hangle hd hrefused

theorem leads_closingName (hv : verdict source (.at (.closing site)) c.pos = v)
    (hblank : ∀ d, source[c.pos]? = some d → isBlank d = false) :
    Leads v closingName c fun found c' =>
      c ≤ c' ∧ verdict source (.at (.closingEnd found site)) c'.pos = v := by
  rw [closingName, leads_bind, leads_peek]
  by_cases hend : source[c.pos]? = some '>'
  · -- Before the bracket it makes no difference whether a name was read.
    have hnameless : verdict source (.at (.closing site)) c.pos =
        verdict source (.at (.closingEnd "" site)) c.pos := by
      exact verdict_congr (forall_next hend rfl) fun hnone => by simp [hnone] at hend
    rw [if_pos hend]
    exact ⟨le_rfl, hnameless.symm.trans hv⟩
  · have hawaits : AwaitsName (.closing site) (.closing site) source[c.pos]? :=
      { advance := fun d hd => by simp [Place.advance, hblank d hd, ne_of_next hend hd]
        finish := fun _ => rfl }
    rw [if_neg hend]
    refine (leads_name hv hawaits).mono ?_
    rintro found c' ⟨hreach, hfound⟩
    exact ⟨hreach.le, hfound⟩

/-- The closing tag of what is open. -/
theorem leads_closingTag {o : Open} {outer : List Open} {nodes : List Node}
    (hv : verdict source (.at (.content ⟨nodes, o :: outer⟩)) c.pos = v)
    (hnext : source[c.pos]? = some '<') (hslash : source[c.pos + 1]? = some '/') :
    Leads v (closingTag o.name) c fun _ c' =>
      c < c' ∧ ChildrenEnd v (o :: outer) nodes.reverse c' := by
  have hroom : c.pos + 2 ≤ source.length := (List.getElem?_eq_some_iff.1 hslash).1
  have hclosing : verdict source (.at (.closing ⟨nodes, o :: outer⟩)) (c.pos + 2) = v :=
    verdict_advance (verdict_advance hv hnext rfl) hslash rfl
  rw [closingTag, leads_bind, leads_forward hroom, leads_bind]
  refine (leads_skipBlanks (c := c.past 2 hroom) rfl hclosing).mono ?_
  rintro - c₁ ⟨hreach₁, hclosing₁, hblank⟩
  rw [leads_bind]
  refine (leads_closingName hclosing₁ hblank).mono ?_
  rintro found c₂ ⟨hreach₂, hfound⟩
  refine leads_wanted (c := c₂) (p := .closingEnd found ⟨nodes, o :: outer⟩)
    ⟨rfl, fun d hblank hne => by simp [Place.advance, hblank, hne], rfl⟩ hfound
    fun c₃ hend hreach₃ hfound' => ?_
  have hreach : c < c₃.next hend :=
    (Cursor.lt_past (by decide) hroom).trans_le
      (((hreach₁.trans hreach₂).trans hreach₃).trans (Cursor.lt_next hend).le)
  by_cases hname : found = o.name
  · have hclosed : (Place.closingEnd found ⟨nodes, o :: outer⟩).advance '>' =
        goOn (.content ⟨o.node nodes.reverse :: o.before, outer⟩) := if_pos hname
    rw [if_pos hname]
    exact ⟨hreach, verdict_advance hfound' hend hclosed⟩
  · have hrefused : (Place.closingEnd found ⟨nodes, o :: outer⟩).advance '>' =
        .error (.mismatchedClose o.name found) := if_neg hname
    rw [if_neg hname]
    have hfault := verdict_refused hfound' hend hrefused
    exact leads_blame.2 hfault

/-- A text, up to the next bracket or brace. -/
theorem leads_text (hv : verdict source (.at (.content site)) c.pos = v)
    (hnext : source[c.pos]? = some ch) (hbracket : ch ≠ '<') (hbrace : ch ≠ '{') :
    Leads v (gather (fun d => d != '<' && d != '{') []) c fun read c' =>
      c < c' ∧ verdict source (.at (.content (site.addText read.reverse))) c'.pos = v := by
  refine (leads_piece (.text · site) hv hnext (by simp [hbracket, hbrace])
    (by simp [Place.advance, hbracket, hbrace]) fun read d => ?_).mono ?_
  · by_cases hd : d = '<' ∨ d = '{'
    · rcases hd with rfl | rfl <;> rfl
    · obtain ⟨hd₁, hd₂⟩ := not_or.1 hd
      simp [State.extend?, hd₁, hd₂]
  · rintro read c' ⟨hreach, hsettle⟩
    exact ⟨hreach, hsettle.symm⟩

/-- One more child, or the end of the children. -/
theorem leads_childRound (hliteral : ReadsLiteral v literal c.depth)
    (helement : c.depth < maxDepth → ReadsElement v element (c.depth + 1))
    (hdepth : stack.length = c.depth)
    (hv : verdict source (.at (.content ⟨nodes, stack⟩)) c.pos = v) :
    Leads v (childRound literal element (stack.head?.map Open.name) nodes) c fun round c' =>
      match round with
      | .again nodes => c < c' ∧ verdict source (.at (.content ⟨nodes, stack⟩)) c'.pos = v
      | .done nodes => c ≤ c' ∧ ChildrenEnd v stack nodes.reverse c' := by
  unfold childRound
  rw [leads_bind, leads_peek]
  split
  · next hnone =>
    cases stack with
    | nil =>
      refine ⟨le_rfl, hnone, ?_⟩
      rw [List.reverse_reverse]
      exact hv
    | cons o outer => exact leads_blame.2 (verdict_finish hv hnone rfl)
  · next hnext =>
    rw [leads_bind, leads_peekAt]
    split
    · next hslash =>
      cases stack with
      | nil =>
        have hrefused : (Place.angle ⟨nodes, []⟩).advance '/' =
            .error (.unexpected (some '<') 1 .element) := rfl
        refine leads_expected.2 ?_
        rw [hnext, ← fault_back]
        exact verdict_refused (verdict_advance hv hnext rfl) hslash hrefused
      | cons o outer =>
        refine leads_bind.2 ((leads_closingTag hv hnext hslash).mono ?_)
        rintro - c' ⟨hreach, hend⟩
        exact ⟨hreach.le, hend⟩
    · next hslash =>
      rw [leads_bind]
      exact leads_element helement hdepth hv hnext hslash
  · next hnext =>
    rw [leads_bind]
    refine (leads_expression hliteral hdepth hv hnext).mono ?_
    rintro node c' hread
    cases node with
    | none => exact hread
    | some node => exact hread
  · next d hbracket hbrace hnext =>
    rw [leads_bind]
    refine (leads_text hv hnext hbracket hbrace).mono ?_
    rintro read c' ⟨hreach, hverdict⟩
    have htop : (stack.head?.map Open.name).isNone = stack.isEmpty := by
      cases stack <;> rfl
    rw [htop]
    rw [Site.addText] at hverdict
    cases htext : normalize read.reverse stack.isEmpty with
    | none =>
      rw [htext] at hverdict
      exact ⟨hreach, hverdict⟩
    | some text =>
      rw [htext] at hverdict
      exact ⟨hreach, hverdict⟩

theorem leads_childrenOf (hliteral : ReadsLiteral v literal c.depth)
    (helement : c.depth < maxDepth → ReadsElement v element (c.depth + 1))
    (hdepth : stack.length = c.depth)
    (hv : verdict source (.at (.content ⟨[], stack⟩)) c.pos = v) :
    Leads v (childrenOf literal element (stack.head?.map Open.name)) c fun nodes c' =>
      c ≤ c' ∧ ChildrenEnd v stack nodes c' := by
  rw [childrenOf, leads_bind]
  refine leads_loop (fun nodes c' => c ≤ c' ∧
    verdict source (.at (.content ⟨nodes, stack⟩)) c'.pos = v) ?_ ⟨le_rfl, hv⟩
  rintro nodes c₁ ⟨hreach, hcontent⟩
  refine (leads_childRound (hreach.2 ▸ hliteral) (hreach.2 ▸ helement)
    (hdepth.trans hreach.2.symm) hcontent).mono ?_
  rintro (nodes' | nodes') c' hround
  · exact ⟨hround.1.1, hreach.trans hround.1.le, hround.2⟩
  · exact ⟨hreach.trans hround.1, hround.2⟩

/-- **The children of anything are read** where so many levels are left as their reader has. -/
theorem leads_children {levels : Nat} (hlevels : c.depth + levels = maxDepth)
    (hdepth : stack.length = c.depth)
    (hv : verdict source (.at (.content ⟨[], stack⟩)) c.pos = v) :
    Leads v (children levels (stack.head?.map Open.name)) c fun nodes c' =>
      c ≤ c' ∧ ChildrenEnd v stack nodes c' := by
  induction levels generalizing c stack with
  | zero => exact leads_childrenOf (readsLiteral hlevels) (fun hroom => by omega) hdepth hv
  | succ levels ih =>
    refine leads_childrenOf (readsLiteral hlevels) (fun _ => readsElement_element
      (readsLiteral (by omega)) ?_) hdepth hv
    intro c' o outer hc' houter hinside
    exact ih (by omega) (by rw [List.length_cons, houter, hc']) hinside

end Children

/-! ### The whole source -/

theorem leads_nodes (hc : c.pos = 0) (hdepth : c.depth = 0) :
    Leads (parse source) nodes c fun nodes c' =>
      parse source = .ok nodes ∧ c'.pos = source.length ∧ c'.depth = 0 := by
  have hv : verdict source (.at (.content ⟨[], []⟩)) c.pos = parse source := by
    rw [hc, parse_eq_verdict]
    rfl
  have hstack : ([] : List Open).length = c.depth := hdepth.symm
  rw [nodes, leads_bind]
  refine (leads_children (by rw [hdepth, Nat.zero_add]) hstack hv).mono ?_
  rintro nodes c' ⟨hreach, hend, hverdict⟩
  cases nodes with
  | nil => exact leads_blame.2 (verdict_finish hverdict hend rfl)
  | cons node nodes =>
    have hfinish : (State.at (.content ⟨(node :: nodes).reverse, []⟩)).finish =
        .ok (node :: nodes) := by
      simp [State.finish, State.settle, Place.finish]
    refine ⟨?_, Nat.le_antisymm c'.pos_le (List.getElem?_eq_none_iff.1 hend),
      hreach.2.trans hdepth⟩
    rw [← hverdict, verdict_of_none hend, hfinish]

end Descent

/-- **A descent reads every source to its end, or halts at a fault of it**, and the result is that
of `parse`.  It halts for no other reason.  So every round of every loop is the last one or moves
the cursor forward, the cursor does not come behind the end of the source, and where `maxDepth`
things are open another one is a fault. -/
theorem descend_reads_all (source : List Char) :
    match descend source with
    | .ok nodes c => parse source = .ok nodes ∧ c.pos = source.length ∧ c.depth = 0
    | .error halt _ => ∃ f, halt = .fault f ∧ parse source = .error f := by
  have h : Descent.Leads (parse source) Descent.nodes (⟨0, Nat.zero_le _, 0⟩ : Cursor source)
      fun nodes c => parse source = .ok nodes ∧ c.pos = source.length ∧ c.depth = 0 :=
    Descent.leads_nodes rfl rfl
  unfold Descent.Leads at h
  unfold descend
  cases hresult : Descent.nodes (⟨0, Nat.zero_le _, 0⟩ : Cursor source) with
  | ok nodes c =>
    rw [hresult] at h
    exact h
  | error halt c =>
    rw [hresult] at h
    cases halt with
    | fault f => exact ⟨f, rfl, h⟩
    | stalled | overrun | vanished | overfull => exact h.elim

end AgentSurface.Jsx
