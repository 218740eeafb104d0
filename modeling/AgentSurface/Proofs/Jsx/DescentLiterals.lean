import AgentSurface.Proofs.Jsx.Characters
import AgentSurface.Proofs.Jsx.Verdict

/-!
# Jsx — names and literals by descent

What the parts of a descent that read names, words, numbers, strings and literals lead to, as the
machine has it.  A literal is read inside some containers; `ReadsLiteral` speaks of all places where
as much is open, so that a list or an object is told what its parts do.

* `leads_piece`: a name, a number or a text is over where the machine ends it.
* `leads_identPath`, `leads_string`: paths and strings.
* `readsLiteral`: literals, as long as the levels are those that the depth leaves.
-/

namespace AgentSurface.Jsx.Descent

open Text (isBlank)

variable {source : List Char} {v : Except Fault (List Node)} {c : Cursor source} {p : Place}
  {ch : Char}

/-! ### Pieces that end behind their last character -/

/-- A piece is gathered up to the character that ends it for the machine. -/
theorem leads_piece {cls : Char → Bool} (piece : List Char → State)
    (hv : verdict source (.at p) c.pos = v) (hnext : source[c.pos]? = some ch)
    (hcls : cls ch = true) (hbegin : p.advance ch = .ok (piece [ch]))
    (hextend : ∀ read d,
      (piece read).extend? d = if cls d then some (piece (d :: read)) else none) :
    Leads v (gather cls []) c fun read c' =>
      c < c' ∧ v =
        match (piece read).settle source[c'.pos]? with
        | .ok place => verdict source (.at place) c'.pos
        | .error refusal => .error (refusal.fault source c'.pos) := by
  refine (leads_gather (fun read pos => (read = [] ∧ pos = c.pos) ∨
    (c.pos + 1 ≤ pos ∧ verdict source (piece read) pos = v)) ?_ (.inl ⟨rfl, rfl⟩)).mono ?_
  · rintro read pos d hinv hd hdcls
    right
    obtain ⟨rfl, rfl⟩ | ⟨hpos, hpiece⟩ := hinv
    · obtain rfl := Option.some.inj (hnext.symm.trans hd)
      exact ⟨Nat.le_refl _, verdict_advance hv hd hbegin⟩
    · have hmore : (piece read).extend? d = some (piece (d :: read)) := by
        rw [hextend, if_pos hdcls]
      exact ⟨Nat.le_succ_of_le hpos, verdict_extend hpiece hd hmore⟩
  · rintro read c' ⟨hinv, hdepth, hend⟩
    obtain ⟨rfl, hpos⟩ | ⟨hpos, hpiece⟩ := hinv
    · rw [hend ch (hpos ▸ hnext)] at hcls
      cases hcls
    · refine ⟨⟨hpos, hdepth⟩, verdict_settle hpiece fun d hd => ?_⟩
      rw [hextend, hend d hd, if_neg Bool.false_ne_true]

theorem isNameRest_of_isNameStart (h : isNameStart ch = true) : isNameRest ch = true := by
  simp only [isNameStart, Bool.or_eq_true] at h
  simp only [isNameRest, Char.isAlphanum, Bool.or_eq_true]
  rcases h with h | h
  · exact .inl (.inl (.inl (.inl (.inl h))))
  · exact .inl (.inl (.inl (.inr h)))

/-- Where a name must begin. -/
structure AwaitsName (p : Place) (role : NameRole) (next : Option Char) : Prop where
  advance : ∀ ch, next = some ch → p.advance ch = beginName role ch
  finish : next = none → p.finish = .error (.unexpected none 0 .name)

theorem leads_name {role : NameRole} (hv : verdict source (.at p) c.pos = v)
    (hp : AwaitsName p role source[c.pos]?) :
    Leads v name c fun word c' =>
      c < c' ∧ verdict source (.at (role.supply word)) c'.pos = v := by
  have hrefuse : (∀ ch, source[c.pos]? = some ch → isNameStart ch = false) →
      v = .error ((Refusal.unexpected source[c.pos]? 0 .name).fault source c.pos) := fun hno =>
    verdict_expected hv (fun ch h => by rw [hp.advance ch h, beginName, hno ch h]; rfl)
      hp.finish
  rw [name, leads_bind, leads_peek]
  cases hnext : source[c.pos]? with
  | none => exact leads_expected.2 (hrefuse (by simp [hnext]))
  | some ch =>
    dsimp only
    by_cases hstart : isNameStart ch = true
    · rw [if_pos hstart, leads_bind]
      refine (leads_piece (.name · role) hv hnext (isNameRest_of_isNameStart hstart)
        ((hp.advance ch hnext).trans (if_pos hstart)) fun _ _ => rfl).mono ?_
      rintro read c' ⟨hreach, hsettle⟩
      rw [State.settle] at hsettle
      split
      · next hdot =>
        rw [if_pos hdot] at hsettle
        exact leads_expected.2 hsettle
      · next hdot =>
        rw [if_neg hdot] at hsettle
        exact ⟨hreach, hsettle.symm⟩
    · rw [if_neg hstart]
      exact leads_expected.2 (hrefuse (forall_next hnext (Bool.eq_false_iff.2 hstart)))

theorem leads_number {frames : Frames} {slot : Slot} (hv : verdict source (.at p) c.pos = v)
    (hnext : source[c.pos]? = some ch) (hch : isNumeral ch = true)
    (hp : p.advance ch = .ok (.number [ch] frames slot)) :
    Leads v number c fun j c' =>
      c < c' ∧ verdict source (.at (supply j frames slot)) c'.pos = v := by
  rw [number, leads_bind]
  refine (leads_piece (.number · frames slot) hv hnext hch hp fun _ _ => rfl).mono ?_
  rintro read c' ⟨hreach, hsettle⟩
  rw [State.settle] at hsettle
  cases hn : Json.Number.ofText? read.reverse with
  | none =>
    rw [hn] at hsettle
    exact leads_blame.2 hsettle
  | some n =>
    rw [hn] at hsettle
    exact ⟨hreach, hsettle.symm⟩

/-! ### Paths -/

/-- The first character of an identifier, and then letters and digits. -/
theorem leads_identifier {s : State} {role : IdentRole} {read : List Char}
    (hv : verdict source s c.pos = v) (hnext : source[c.pos]? = some ch)
    (hch : isIdentStart ch = true) (hs : s.step ch = .ok (.ident (ch :: read) role)) :
    Leads v (gather (fun d => isIdentStart d || d.isDigit) read) c fun read' c' =>
      c < c' ∧ c'.pos + read.length = c.pos + read'.length ∧ read'.head? ≠ some '.' ∧
        verdict source (.ident read' role) c'.pos = v ∧
        ∀ d, source[c'.pos]? = some d → isIdentStart d = false ∧ d.isDigit = false := by
  refine (leads_gather (fun read' pos => pos + read.length = c.pos + read'.length ∧
    ((read' = read ∧ pos = c.pos) ∨ (c.pos + 1 ≤ pos ∧ read'.head? ≠ some '.' ∧
      verdict source (.ident read' role) pos = v))) ?_ ⟨rfl, .inl ⟨rfl, rfl⟩⟩).mono ?_
  · rintro read' pos d ⟨hlength, hinv⟩ hd hcls
    have hdot : d ≠ '.' := by
      rintro rfl
      cases hcls
    refine ⟨by rw [List.length_cons]; omega, .inr ?_⟩
    obtain ⟨rfl, rfl⟩ | ⟨hpos, hhead, hpiece⟩ := hinv
    · obtain rfl := Option.some.inj (hnext.symm.trans hd)
      exact ⟨Nat.le_refl _, by simpa using hdot, verdict_step hv hd hs⟩
    · have hmore : (State.ident read' role).extend? d = some (.ident (d :: read') role) := by
        rcases Bool.or_eq_true_iff.1 hcls with hstart | hdigit
        · simp [State.extend?, hstart]
        · simp [State.extend?, hdigit, hhead]
      exact ⟨Nat.le_succ_of_le hpos, by simpa using hdot,
        verdict_extend hpiece hd hmore⟩
  · rintro read' c' ⟨⟨hlength, hinv⟩, hdepth, hend⟩
    have hend' : ∀ d, source[c'.pos]? = some d → isIdentStart d = false ∧ d.isDigit = false :=
      fun d hd => Bool.or_eq_false_iff.1 (hend d hd)
    obtain ⟨rfl, hpos⟩ | ⟨hpos, hhead, hpiece⟩ := hinv
    · rw [(hend' ch (hpos ▸ hnext)).1] at hch
      cases hch
    · exact ⟨⟨hpos, hdepth⟩, hlength, hhead, hpiece, hend'⟩

/-- A path is as long as the cursor goes, and becomes what the machine makes of it. -/
theorem leads_identPath {role : IdentRole} (hv : verdict source (.at p) c.pos = v)
    (hnext : source[c.pos]? = some ch) (hch : isIdentStart ch = true)
    (hp : p.advance ch = .ok (.ident [ch] role)) :
    Leads v identPath c fun path c' =>
      c < c' ∧ c'.pos = c.pos + path.length ∧ v =
        match role.supply path with
        | .ok place => verdict source (.at place) c'.pos
        | .error refusal => .error (refusal.fault source c'.pos) := by
  -- Before an identifier there is nothing, or the dot behind the one before.
  refine leads_loop (fun read c' => c'.pos = c.pos + read.length ∧ c'.depth = c.depth ∧
    ∃ s, verdict source s c'.pos = v ∧
      ((read = [] ∧ s = .at p) ∨ (read.head? = some '.' ∧ s = .ident read role))) ?_
    ⟨rfl, rfl, .at p, hv, .inl ⟨rfl, rfl⟩⟩
  rintro read c₁ ⟨hpos, hdepth, s, hs, hbefore⟩
  have hbegin : ∀ d, source[c₁.pos]? = some d → isIdentStart d = true →
      s.step d = .ok (.ident (d :: read) role) := by
    intro d hd hdstart
    obtain ⟨rfl, rfl⟩ | ⟨-, rfl⟩ := hbefore
    · rw [List.length_nil, Nat.add_zero] at hpos
      rw [hpos] at hd
      obtain rfl := Option.some.inj (hnext.symm.trans hd)
      exact hp
    · simp [State.step, State.extend?, hdstart]
  -- Only behind a dot can something else stand.
  have hrefuse : (∀ d, source[c₁.pos]? = some d → isIdentStart d = false) →
      v = .error ((Refusal.unexpected source[c₁.pos]? 0 .identifier).fault source c₁.pos) := by
    intro hno
    obtain ⟨rfl, rfl⟩ | ⟨hdot, rfl⟩ := hbefore
    · rw [List.length_nil, Nat.add_zero] at hpos
      rw [hno ch (hpos ▸ hnext)] at hch
      cases hch
    · have hsettle := verdict_settle hs fun d hd => by simp [State.extend?, hno d hd, hdot]
      rwa [State.settle, if_pos hdot] at hsettle
  rw [identRound, leads_bind, leads_peek]
  cases hd : source[c₁.pos]? with
  | none => exact leads_expected.2 (hrefuse (by simp [hd]))
  | some d =>
    dsimp only
    by_cases hdstart : isIdentStart d = true
    · rw [if_pos hdstart, leads_bind]
      refine (leads_identifier hs hd hdstart (hbegin d hd hdstart)).mono ?_
      rintro read' c₂ ⟨hreach, hlength, hhead, hpiece, hend⟩
      have hforward := hreach.1
      rw [leads_bind]
      by_cases hdot : source[c₂.pos]? = some '.'
      · have hmore : (State.ident read' role).extend? '.' = some (.ident ('.' :: read') role) := by
          simp [State.extend?, hhead]
        rw [leads_eat_some hdot]
        refine ⟨by simp only [Cursor.pos_next]; omega, ?_, hreach.2.trans hdepth, _,
          verdict_extend hpiece hdot hmore, .inr ⟨rfl, rfl⟩⟩
        simp only [Cursor.pos_next, List.length_cons]
        omega
      · rw [leads_eat_other hdot]
        have hsettle := verdict_settle hpiece fun e he => by
          simp [State.extend?, hend e he, ne_of_next hdot he]
        rw [State.settle, if_neg hhead] at hsettle
        refine ⟨⟨by omega, hreach.2.trans hdepth⟩, ?_, hsettle⟩
        rw [String.length_ofList, List.length_reverse]
        omega
    · rw [if_neg hdstart]
      exact leads_expected.2 (hrefuse (forall_next hd (Bool.eq_false_iff.2 hdstart)))

/-! ### Strings -/

section Strings

variable {quote : Char} {role : StringRole} {slot : Slot} {text : String}

/-- One more digit of an escape. -/
theorem leads_hexDigits_succ {n taken code : Nat} {post : Nat → Cursor source → Prop}
    (hv : verdict source (.at (.string quote text (.hex taken code) role slot)) c.pos = v)
    (hmore : ∀ d x (hnext : source[c.pos]? = some d), Text.hexDigit? d = some x →
      Leads v (hexDigits n (code * 16 + x)) (c.next hnext) post) :
    Leads v (hexDigits (n + 1) code) c post := by
  rw [hexDigits, leads_bind]
  cases hnext : source[c.pos]? with
  | none =>
    rw [leads_bump_none hnext]
    exact leads_blame.2 (verdict_finish hv hnext rfl)
  | some d =>
    rw [leads_bump_some hnext, Option.bind_some]
    cases hd : Text.hexDigit? d with
    | none =>
      have hrefused : (Place.string quote text (.hex taken code) role slot).advance d =
          .error (.invalidLiteral 0 1 .badEscape) := by
        simp [Place.advance, stringStep, hd]
      have hfault := verdict_refused hv hnext hrefused
      exact leads_blame.2 hfault
    | some x => exact hmore d x hnext hd

/-- The digits of an escape that are missing still, behind those that are taken. -/
theorem leads_hexDigits {n taken code : Nat} (hn : taken + (n + 1) = 4)
    (hv : verdict source (.at (.string quote text (.hex taken code) role slot)) c.pos = v) :
    Leads v (hexDigits (n + 1) code) c fun code' c' =>
      c < c' ∧
        verdict source (.at (.string quote (text.push (if code'.isValidChar then Char.ofNat code'
          else Text.Utf8.replacement)) .plain role slot)) c'.pos = v := by
  induction n generalizing taken code c with
  | zero =>
    refine leads_hexDigits_succ hv fun d x hnext hd => ?_
    have hlast : (Place.string quote text (.hex taken code) role slot).advance d =
        goOn (.string quote (text.push (if (code * 16 + x).isValidChar then
          Char.ofNat (code * 16 + x) else Text.Utf8.replacement)) .plain role slot) := by
      simp [Place.advance, stringStep, hd, show ¬ taken < 3 by omega]
    exact ⟨Cursor.lt_next hnext, verdict_advance hv hnext hlast⟩
  | succ n ih =>
    refine leads_hexDigits_succ hv fun d x hnext hd => ?_
    have hmore : (Place.string quote text (.hex taken code) role slot).advance d =
        goOn (.string quote text (.hex (taken + 1) (code * 16 + x)) role slot) := by
      simp [Place.advance, stringStep, hd, show taken < 3 by omega]
    refine (ih (by omega) (verdict_advance hv hnext hmore)).mono ?_
    rintro code' c' ⟨hreach, hcode⟩
    exact ⟨Cursor.lt_of_next hreach.le, hcode⟩

/-- An escape, behind its backslash. -/
theorem leads_escape
    (hv : verdict source (.at (.string quote text .backslash role slot)) c.pos = v) :
    Leads v escape c fun meant c' =>
      c < c' ∧
        verdict source (.at (.string quote (text.push meant) .plain role slot)) c'.pos = v := by
  rw [escape, leads_bind]
  cases hnext : source[c.pos]? with
  | none =>
    rw [leads_bump_none hnext]
    exact leads_blame.2 (verdict_finish hv hnext rfl)
  | some d =>
    rw [leads_bump_some hnext]
    have hmeans : ∀ meant, (Place.string quote text .backslash role slot).advance d =
        goOn (.string quote (text.push meant) .plain role slot) →
        c < c.next hnext ∧
          verdict source (.at (.string quote (text.push meant) .plain role slot))
            (c.next hnext).pos = v := fun meant h =>
      ⟨Cursor.lt_next hnext, verdict_advance hv hnext h⟩
    split
    · next h => cases h
    · next h => cases h; exact hmeans _ rfl
    · next h => cases h; exact hmeans _ rfl
    · next h => cases h; exact hmeans _ rfl
    · next h => cases h; exact hmeans _ rfl
    · next h => cases h; exact hmeans _ rfl
    · next h =>
      cases h
      rw [leads_bind]
      have hcode := verdict_advance hv hnext
        (rfl : (Place.string quote text .backslash role slot).advance 'u' = goOn _)
      refine (leads_hexDigits (c := c.next hnext) (by decide) hcode).mono ?_
      rintro code c' ⟨hreach, hmeant⟩
      exact ⟨Cursor.lt_of_next hreach.le, hmeant⟩
    · next d' hn ht hr hb hf hu h =>
      obtain rfl := Option.some.inj h
      refine hmeans _ (advance_escape (.itself ?_) quote text role slot)
      simp only [List.mem_cons, List.not_mem_nil, or_false, not_or]
      exact ⟨hu, hn, ht, hr, hb, hf⟩

/-- A string, from its quote on. -/
theorem leads_string (role : StringRole) (hv : verdict source (.at p) c.pos = v)
    (hnext : source[c.pos]? = some quote) (hquote : isQuote quote = true)
    (hp : p.advance quote = goOn (.string quote "" .plain role slot)) :
    Leads v string c fun text c' =>
      c < c' ∧ verdict source (.at (role.supply text slot)) c'.pos = v := by
  rw [string, leads_bind, leads_bump_some hnext]
  refine leads_loop (fun text c' => c < c' ∧
    verdict source (.at (.string quote text .plain role slot)) c'.pos = v) ?_
    ⟨Cursor.lt_next hnext, verdict_advance hv hnext hp⟩
  rintro text c₁ ⟨hreach, hplain⟩
  rw [stringRound, leads_bind]
  cases hd : source[c₁.pos]? with
  | none =>
    rw [leads_bump_none hd]
    exact leads_blame.2 (verdict_finish hplain hd rfl)
  | some d =>
    rw [leads_bump_some hd]
    dsimp only
    have hmove := hreach.trans (Cursor.lt_next hd)
    split
    · next hend =>
      subst hend
      have hdone : (Place.string d text .plain role slot).advance d =
          goOn (role.supply text slot) := if_pos rfl
      exact ⟨hmove, verdict_advance hplain hd hdone⟩
    split
    · next hslash =>
      subst hslash
      rw [leads_bind]
      refine (leads_escape (verdict_advance hplain hd (advance_backslash hquote text))).mono ?_
      rintro meant c₂ ⟨hreach', hmeant⟩
      exact ⟨(Cursor.lt_of_next hreach'.le).1, hmove.trans hreach', hmeant⟩
    · next hend hslash =>
      have hmore : (Place.string quote text .plain role slot).advance d =
          goOn (.string quote (text.push d) .plain role slot) :=
        (if_neg hend).trans (if_neg hslash)
      exact ⟨Nat.lt_succ_self _, hmove, verdict_advance hplain hd hmore⟩

end Strings

/-! ### Signs between things -/

section Signs

variable {σ α : Type} {close : Char} {what : Expected} {k : Descent source α}
  {post : α → Cursor source → Prop}

/-- Where blanks stand for nothing, and behind them this character must come. -/
structure Wants (p : Place) (ch : Char) (what : Expected) : Prop where
  blanks : p.skipsBlanks = true
  other : ∀ d, isBlank d = false → d ≠ ch → p.advance d = refuse d what
  finish : p.finish = .error (.unexpected none 0 what)

theorem leads_wanted (hp : Wants p ch what) (hv : verdict source (.at p) c.pos = v)
    (hk : ∀ c' (h : source[c'.pos]? = some ch), c ≤ c' →
      verdict source (.at p) c'.pos = v → Leads v k (c'.next h) post) :
    Leads v (do skipBlanks; expect ch what; k) c post := by
  rw [leads_bind]
  refine (leads_skipBlanks hp.blanks hv).mono ?_
  rintro - c' ⟨hreach, hplace, hblank⟩
  rw [leads_bind]
  refine leads_expect (fun h => hk c' h hreach hplace) fun hne => ?_
  exact verdict_expected hplace (fun d hd => hp.other d (hblank d hd) (ne_of_next hne hd))
    fun _ => hp.finish

/-- A list or an object is over, or something else comes in it. -/
theorem leads_unlessClosed (closed : Place) {a : α} (hblanks : p.skipsBlanks = true)
    (hclose : p.advance close = goOn closed) (hv : verdict source (.at p) c.pos = v)
    (hdone : ∀ c', c < c' → verdict source (.at closed) c'.pos = v → post a c')
    (hk : ∀ c', c ≤ c' → verdict source (.at p) c'.pos = v →
      (∀ d, source[c'.pos]? = some d → isBlank d = false ∧ d ≠ close) → Leads v k c' post) :
    Leads v (do skipBlanks; if ← eat close then return a else k) c post := by
  rw [leads_bind]
  refine (leads_skipBlanks hblanks hv).mono ?_
  rintro - c' ⟨hreach, hplace, hblank⟩
  rw [leads_bind]
  by_cases hnext : source[c'.pos]? = some close
  · rw [leads_eat_some hnext]
    exact hdone _ (hreach.trans_lt (Cursor.lt_next hnext))
      (verdict_advance hplace hnext hclose)
  · rw [leads_eat_other hnext, if_neg Bool.false_ne_true]
    exact hk c' hreach hplace fun d hd => ⟨hblank d hd, ne_of_next hnext hd⟩

/-- Behind a thing in a list or an object a comma must come, or the end. -/
theorem leads_separated (next closed : Place) {s : σ} {a : α}
    {post : Round σ α → Cursor source → Prop}
    (hblanks : p.skipsBlanks = true) (hcomma : p.advance ',' = goOn next)
    (hclose : p.advance close = goOn closed)
    (hother : ∀ d, isBlank d = false → d ≠ ',' → d ≠ close → p.advance d = refuse d what)
    (hfinish : p.finish = .error (.unexpected none 0 what))
    (hv : verdict source (.at p) c.pos = v)
    (hagain : ∀ c', c < c' → verdict source (.at next) c'.pos = v → post (.again s) c')
    (hdone : ∀ c', c < c' → verdict source (.at closed) c'.pos = v → post (.done a) c') :
    Leads v (do
      skipBlanks
      if ← eat ',' then return .again s
      else
        expect close what
        return .done a) c post := by
  refine leads_unlessClosed next hblanks hcomma hv hagain fun c' hreach hplace hnot => ?_
  rw [leads_bind]
  refine leads_expect (fun h => ?_) fun hne => ?_
  · exact hdone _ (hreach.trans_lt (Cursor.lt_next h))
      (verdict_advance hplace h hclose)
  · exact verdict_expected hplace
      (fun d hd => hother d (hnot d hd).1 (hnot d hd).2 (ne_of_next hne hd)) fun _ => hfinish

end Signs

/-! ### Lists and objects -/

/-- One more thing is open, or there is no room for it. -/
theorem leads_enter {post : Unit → Cursor source → Prop}
    (hroom : c.depth < maxDepth → post () { c with depth := c.depth + 1 })
    (hfull : ¬ c.depth < maxDepth → v = .error (.tooDeep maxDepth)) :
    Leads v enter c post := by
  unfold Leads enter
  by_cases hdepth : c.depth < maxDepth
  · rw [if_neg (Nat.not_lt.2 hdepth)]
    exact hroom hdepth
  · rw [if_pos (Nat.lt_succ_of_le (Nat.not_lt.1 hdepth))]
    exact hfull hdepth

/-- What is open from this bracket on, if there is room for it and its inside is read. -/
theorem leads_bracketed {α : Type} {inside : Descent source α} (post : α → Nat → Prop)
    (hnext : source[c.pos]? = some ch)
    (hinside : ∀ c₁, c.depth < maxDepth → c₁.pos = c.pos + 1 → c₁.depth = c.depth + 1 →
      Leads v inside c₁ fun a c₂ => c₁ ≤ c₂ ∧ post a c₂.pos)
    (hfull : ¬ c.depth < maxDepth → v = .error (.tooDeep maxDepth)) :
    Leads v (bracketed ch inside) c fun a c' => c < c' ∧ post a c'.pos := by
  rw [bracketed, leads_bind, leads_take hnext, leads_bind]
  refine leads_enter (fun hroom => ?_) hfull
  rw [leads_bind]
  refine (hinside _ hroom rfl rfl).mono ?_
  rintro a c₂ ⟨hreach, hpost⟩
  refine ⟨Cursor.lt_def.2 ⟨hreach.1, ?_⟩, hpost⟩
  show c₂.depth - 1 = c.depth
  rw [hreach.2]
  rfl

section Literals

variable {part array object : Descent source Json} {depth : Nat} {frames : Frames} {slot : Slot}
  {role : IdentRole}

/-- Where a literal must begin. -/
structure AwaitsLiteral (p : Place) (frames : Frames) (slot : Slot) (role : IdentRole)
    (next : Option Char) : Prop where
  advance : ∀ ch, next = some ch → p.advance ch = beginLiteral frames slot role ch
  finish : next = none → p.finish = .error (.unexpected none 0 .literal)

/-- Where so many things are open, this part of a descent reads a literal; a word is read only where
it is a part of one. -/
def ReadsLiteral (v : Except Fault (List Node)) (literal : Descent source Json) (depth : Nat) :
    Prop :=
  ∀ ⦃c : Cursor source⦄ ⦃p : Place⦄ ⦃frames : Frames⦄ ⦃slot : Slot⦄ ⦃role : IdentRole⦄,
    verdict source (.at p) c.pos = v → AwaitsLiteral p frames slot role source[c.pos]? →
    c.depth = depth → slot.depth + frames.length = depth →
    (∀ ch, source[c.pos]? = some ch → isIdentStart ch = true → role = .literal frames slot) →
    Leads v literal c fun j c' =>
      c < c' ∧ verdict source (.at (supply j frames slot)) c'.pos = v

/-- Where so many things are open, this part of a descent reads the rest of the last one, a list or
an object; it begins at the place `first`. -/
def ReadsInside (v : Except Fault (List Node)) (first : Frames → Slot → Place)
    (inside : Descent source Json) (depth : Nat) : Prop :=
  ∀ ⦃c : Cursor source⦄ ⦃frames : Frames⦄ ⦃slot : Slot⦄,
    c.depth = depth → slot.depth + frames.length + 1 = depth →
    verdict source (.at (first frames slot)) c.pos = v →
    Leads v inside c fun j c' =>
      c ≤ c' ∧ verdict source (.at (supply j frames slot)) c'.pos = v

/-- A list or an object, from its bracket on. -/
theorem leads_container {inside : Descent source Json} {first : Frames → Slot → Place}
    (hinside : c.depth < maxDepth → ReadsInside v first inside (c.depth + 1))
    (hdepth : slot.depth + frames.length = c.depth) (hv : verdict source (.at p) c.pos = v)
    (hnext : source[c.pos]? = some ch)
    (hp : p.advance ch = openLiteral frames slot (first frames slot)) :
    Leads v (bracketed ch inside) c fun j c' =>
      c < c' ∧ verdict source (.at (supply j frames slot)) c'.pos = v := by
  rw [openLiteral, hdepth] at hp
  refine leads_bracketed (fun j pos => verdict source (.at (supply j frames slot)) pos = v) hnext
    (fun c₁ hroom hpos hdepth₁ => ?_) fun hfull => ?_
  · rw [if_pos hroom] at hp
    refine hinside hroom hdepth₁ (by rw [hdepth]) ?_
    rw [hpos]
    exact verdict_advance hv hnext hp
  · rw [if_neg hfull] at hp
    exact verdict_refused hv hnext hp

theorem readsInside_array (hpart : ReadsLiteral v part depth) :
    ReadsInside v (.listNext []) (Descent.array part) depth := by
  intro c frames slot hc hdepth hv
  rw [Descent.array, leads_bind]
  refine leads_loop (fun items c' => c ≤ c' ∧
    verdict source (.at (.listNext items frames slot)) c'.pos = v) ?_ ⟨le_rfl, hv⟩
  rintro items c₁ ⟨hreach₁, hitems⟩
  refine leads_unlessClosed (supply (.array items.reverse) frames slot) rfl rfl hitems
    (fun c' hreach hclosed => ⟨hreach₁.trans hreach.le, hclosed⟩) fun c₂ hreach₂ hplace hnot => ?_
  have hawaits : AwaitsLiteral (.listNext items frames slot) (.item items :: frames) slot
      (.literal (.item items :: frames) slot) source[c₂.pos]? :=
    { advance := fun d hd => by simp [Place.advance, hnot d hd, beginPart]
      finish := fun _ => rfl }
  rw [leads_bind]
  refine (hpart hplace hawaits ((hreach₁.trans hreach₂).2.trans hc) hdepth fun _ _ _ => rfl).mono ?_
  rintro j c₃
    ⟨hreach₃, (hmore : verdict source (.at (.listMore (j :: items) frames slot)) c₃.pos = v)⟩
  have hreach := hreach₂.trans_lt hreach₃
  refine leads_separated (.listNext (j :: items) frames slot)
    (supply (.array (j :: items).reverse) frames slot) rfl rfl rfl
    (fun d hblank hcomma hclose => by simp [Place.advance, hblank, hcomma, hclose]) rfl hmore
    (fun c' hreach' hverdict => ?_) fun c' hreach' hverdict => ?_
  · exact ⟨(hreach.trans hreach').1, hreach₁.trans (hreach.trans hreach').le, hverdict⟩
  · exact ⟨hreach₁.trans (hreach.trans hreach').le, hverdict⟩

/-- The key of a member, if the object does not end. -/
theorem leads_key {before : Json.Fields}
    (hv : verdict source (.at (.objectNext before frames slot)) c.pos = v)
    (hnot : ∀ d, source[c.pos]? = some d → isBlank d = false ∧ d ≠ '}') :
    Leads v key c fun k c' =>
      c < c' ∧ verdict source (.at (.colon before k frames slot)) c'.pos = v := by
  have hadvance : ∀ d, source[c.pos]? = some d → (Place.objectNext before frames slot).advance d =
      if isQuote d then goOn (.string d "" .plain (.key before frames) slot)
      else if isIdentStart d then .ok (.ident [d] (.key before frames slot))
      else refuse d .objectKey := fun d hd => by
    simp [Place.advance, hnot d hd]
  have hrefuse : (∀ d, source[c.pos]? = some d → isQuote d = false ∧ isIdentStart d = false) →
      v = .error ((Refusal.unexpected source[c.pos]? 0 .objectKey).fault source c.pos) := fun hno =>
    verdict_expected hv (fun d hd => by simp [hadvance d hd, hno d hd]) fun _ => rfl
  rw [key, leads_bind, leads_peek]
  cases hnext : source[c.pos]? with
  | none => exact leads_expected.2 (hrefuse (by simp [hnext]))
  | some d =>
    have hd := hadvance d hnext
    dsimp only
    split
    · next hquote =>
      exact leads_string (.key before frames) hv hnext hquote (hd.trans (if_pos hquote))
    split
    · next hquote hstart =>
      rw [if_neg hquote, if_pos hstart] at hd
      refine (leads_identPath hv hnext hstart hd).mono ?_
      rintro k c' ⟨hreach, -, hcolon⟩
      exact ⟨hreach, hcolon.symm⟩
    · next hquote hstart =>
      exact leads_expected.2 (hrefuse
        (forall_next hnext ⟨Bool.eq_false_iff.2 hquote, Bool.eq_false_iff.2 hstart⟩))

theorem readsInside_object (hpart : ReadsLiteral v part depth) :
    ReadsInside v (.objectNext []) (Descent.object part) depth := by
  intro c frames slot hc hdepth hv
  rw [Descent.object, leads_bind]
  refine leads_loop (fun members c' => c ≤ c' ∧
    verdict source (.at (.objectNext members frames slot)) c'.pos = v) ?_ ⟨le_rfl, hv⟩
  rintro members c₁ ⟨hreach₁, hmembers⟩
  refine leads_unlessClosed (supply (.object members) frames slot) rfl rfl hmembers
    (fun c' hreach hclosed => ⟨hreach₁.trans hreach.le, hclosed⟩) fun c₂ hreach₂ hplace hnot => ?_
  rw [leads_bind]
  refine (leads_key hplace hnot).mono ?_
  rintro k c₃ ⟨hreach₃, hcolon⟩
  refine leads_wanted (c := c₃) (p := .colon members k frames slot) ⟨rfl, fun d hblank hne => by
    simp [Place.advance, hblank, hne], rfl⟩ hcolon fun c₄ hnext₄ hreach₄ hcolon' => ?_
  rw [leads_bind]
  refine (leads_skipBlanks (p := .memberValue members k frames slot) rfl
    (verdict_advance hcolon' hnext₄ rfl)).mono ?_
  rintro - c₅ ⟨hreach₅, hvalue, hblank⟩
  have hawaits : AwaitsLiteral (.memberValue members k frames slot) (.member members k :: frames)
      slot (.literal (.member members k :: frames) slot) source[c₅.pos]? :=
    { advance := fun d hd => by simp [Place.advance, hblank d hd, beginPart]
      finish := fun _ => rfl }
  have hbefore : c₁ < c₅ :=
    ((hreach₂.trans_lt hreach₃).trans_le hreach₄).trans (Cursor.lt_of_next hreach₅)
  rw [leads_bind]
  refine (hpart hvalue hawaits ((hreach₁.trans hbefore.le).2.trans hc) hdepth fun _ _ _ =>
    rfl).mono ?_
  rintro j c₆
    ⟨hreach₆, (hmore : verdict source (.at (.objectMore (members.insert k j) frames slot)) _ = v)⟩
  have hreach := hbefore.trans hreach₆
  refine leads_separated (.objectNext (members.insert k j) frames slot)
    (supply (.object (members.insert k j)) frames slot) rfl rfl rfl
    (fun d hblank hcomma hclose => by simp [Place.advance, hblank, hcomma, hclose]) rfl hmore
    (fun c' hreach' hverdict => ?_) fun c' hreach' hverdict => ?_
  · exact ⟨(hreach.trans hreach').1, hreach₁.trans (hreach.trans hreach').le, hverdict⟩
  · exact ⟨hreach₁.trans (hreach.trans hreach').le, hverdict⟩

/-! ### Literals -/

/-- A word of a literal stands for one, or it is blamed where it begins. -/
theorem leads_word (hv : verdict source (.at p) c.pos = v) (hnext : source[c.pos]? = some ch)
    (hch : isIdentStart ch = true) (hp : p.advance ch = .ok (.ident [ch] (.literal frames slot))) :
    Leads v word c fun j c' =>
      c < c' ∧ verdict source (.at (supply j frames slot)) c'.pos = v := by
  rw [word, leads_bind, leads_get, leads_bind]
  refine (leads_identPath hv hnext hch hp).mono ?_
  rintro path c' ⟨hreach, hlength, hpath⟩
  rw [IdentRole.supply] at hpath
  cases hword : wordLiteral? path with
  | some j =>
    rw [hword] at hpath
    exact ⟨hreach, hpath.symm⟩
  | none =>
    rw [hword] at hpath
    dsimp only at hpath ⊢
    rw [leads_bind, leads_set, leads_blame, hpath]
    simp only [Refusal.fault, hlength, Nat.add_sub_cancel, Nat.add_zero, Nat.sub_zero]

/-- A literal, if lists and objects are read where one thing more is open. -/
theorem readsLiteral_literalOf
    (harray : depth < maxDepth → ReadsInside v (.listNext []) array (depth + 1))
    (hobject : depth < maxDepth → ReadsInside v (.objectNext []) object (depth + 1)) :
    ReadsLiteral v (literalOf array object) depth := by
  intro c p frames slot role hv hp hc hslot hword
  subst hc
  have hadvance := hp.advance
  unfold beginLiteral at hadvance
  have hrefuse : (∀ d, source[c.pos]? = some d → p.advance d = refuse d .literal) →
      v = .error ((Refusal.unexpected source[c.pos]? 0 .literal).fault source c.pos) := fun hno =>
    verdict_expected hv hno hp.finish
  rw [literalOf, leads_bind, leads_peek]
  cases hnext : source[c.pos]? with
  | none => exact leads_expected.2 (hrefuse (by simp [hnext]))
  | some d =>
    have hd := hadvance d hnext
    dsimp only
    split
    · next hquote =>
      rw [leads_bind]
      exact leads_string (.value frames) hv hnext hquote (hd.trans (if_pos hquote))
    next hquote =>
    rw [if_neg hquote] at hd
    split
    · next hlist =>
      subst hlist
      exact leads_container harray hslot hv hnext hd
    next hlist =>
    rw [if_neg hlist] at hd
    split
    · next hobject =>
      subst hobject
      exact leads_container hobject hslot hv hnext hd
    next hobject =>
    rw [if_neg hobject] at hd
    split
    · next hnumber =>
      have hnumeral : isNumeral d = true := by
        simp only [Bool.or_eq_true, decide_eq_true_eq] at hnumber
        simp only [isNumeral, Bool.or_eq_true, beq_iff_eq]
        rcases hnumber with rfl | hdigit
        · simp
        · simp [hdigit]
      exact leads_number hv hnext hnumeral (hd.trans (if_pos hnumber))
    next hnumber =>
    rw [if_neg hnumber] at hd
    split
    · next hstart =>
      rw [if_pos hstart, hword d hnext hstart] at hd
      exact leads_word hv hnext hstart hd
    · next hstart =>
      rw [if_neg hstart] at hd
      exact leads_expected.2 (hrefuse (forall_next hnext hd))

/-- **A literal is read** where so many levels are left as its reader has. -/
theorem readsLiteral {levels : Nat} (h : depth + levels = maxDepth) :
    ReadsLiteral v (literal levels : Descent source Json) depth := by
  induction levels generalizing depth with
  | zero => exact readsLiteral_literalOf (fun hroom => by omega) fun hroom => by omega
  | succ levels ih =>
    have hpart : ReadsLiteral v (literal levels : Descent source Json) (depth + 1) := ih (by omega)
    exact readsLiteral_literalOf (fun _ => readsInside_array hpart)
      fun _ => readsInside_object hpart

end Literals

end AgentSurface.Jsx.Descent
