import Mathlib.Order.Basic
import AgentSurface.Jsx.Descent
import AgentSurface.Proofs.Jsx.Pieces

/-!
# Jsx — what a descent leads to

`verdict s pos` is what comes of a source that the machine reads from the state `s` on, with so many
characters taken: the nodes of the source, or its fault and where that is.  A descent is followed by
the machine: as long as it goes on, the machine has a state with the same verdict at the cursor, and
the fault at which it halts is this verdict.  `Leads` says so of one part of a descent, and is put
together along the descent.

* `leads_bind`, `leads_loop`: one part after the other, and round after round.  A loop is left
  alone if a round that is not the last one moves the cursor forward and keeps an invariant.
* `verdict_advance`, `verdict_settle`: the machine, one character or one piece further.
* `leads_gather`, `leads_skipBlanks`, `leads_expect`: what descents are made of.
-/

namespace AgentSurface.Jsx

open Text (isBlank)

/-! ### The verdict of the machine -/

/-- What comes of the rest of a source, with so many characters taken before it. -/
def verdictOn (source : List Char) (s : State) (taken : Nat) :
    List Char → Except Fault (List Node)
  | [] =>
    match s.finish with
    | .ok nodes => .ok nodes
    | .error refusal => .error (refusal.fault source taken)
  | c :: rest =>
    match s.step c with
    | .ok next => verdictOn source next (taken + 1) rest
    | .error refusal => .error (refusal.fault source taken)

/-- What comes of a source, read from a state at some place on. -/
def verdict (source : List Char) (s : State) (pos : Nat) : Except Fault (List Node) :=
  verdictOn source s pos (source.drop pos)

/-- The verdict on what is unread is the machine's own run over it, the refusal told with the place
at which the run stopped. -/
theorem verdictOn_eq_feed (source : List Char) (s : State) (taken : Nat) (rest : List Char) :
    verdictOn source s taken rest =
      match Text.feed State.step s rest with
      | .error stop =>
        .error (stop.reason.fault source (taken + rest.length - stop.unread.length))
      | .ok last =>
        match last.finish with
        | .ok nodes => .ok nodes
        | .error refusal => .error (refusal.fault source (taken + rest.length)) := by
  induction rest generalizing s taken with
  | nil => rfl
  | cons ch rest ih =>
    rw [verdictOn, Text.feed]
    cases s.step ch with
    | error refusal => simp
    | ok s' =>
      have hlength : taken + 1 + rest.length = taken + (ch :: rest).length := by
        rw [List.length_cons]
        omega
      dsimp only
      rw [ih, hlength]

/-- The verdict on a source from its beginning is what `parse` gives. -/
theorem parse_eq_verdict (source : List Char) : parse source = verdict source .initial 0 := by
  cases hfeed : Text.feed State.step .initial source with
  | error stop => simp [parse, verdict, verdictOn_eq_feed, hfeed]
  | ok last =>
    cases hfinish : last.finish with
    | ok nodes => simp [parse, verdict, verdictOn_eq_feed, hfeed, hfinish]
    | error refusal => simp [parse, verdict, verdictOn_eq_feed, hfeed, hfinish]

variable {source : List Char} {s s' : State} {p : Place} {pos : Nat} {ch : Char}
  {refusal : Refusal} {v : Except Fault (List Node)}

/-! ### The next character -/

/-- A character that is not the next one differs from whatever stands there. -/
theorem ne_of_next {d : Char} (h : source[pos]? ≠ some ch) (hd : source[pos]? = some d) :
    d ≠ ch := by
  rintro rfl
  exact h hd

/-- What holds of the next character holds of any character found in its place. -/
theorem forall_next {q : Char → Prop} (h : source[pos]? = some ch) (hq : q ch) :
    ∀ d, source[pos]? = some d → q d := by
  intro d hd
  obtain rfl := Option.some.inj (h.symm.trans hd)
  exact hq

/-! ### The machine, one character or one piece further -/

/-- One step of the verdict: the machine reads the character at the place, or is refused there. -/
theorem verdict_of_some (h : source[pos]? = some ch) :
    verdict source s pos =
      match s.step ch with
      | .ok next => verdict source next (pos + 1)
      | .error refusal => .error (refusal.fault source pos) := by
  obtain ⟨hlt, rfl⟩ := List.getElem?_eq_some_iff.1 h
  rw [verdict, List.drop_eq_getElem_cons hlt]
  rfl

/-- At the end of the source the verdict is the one on the last state. -/
theorem verdict_of_none (h : source[pos]? = none) :
    verdict source s pos =
      match s.finish with
      | .ok nodes => .ok nodes
      | .error refusal => .error (refusal.fault source pos) := by
  rw [verdict, List.drop_eq_nil_of_le (List.getElem?_eq_none_iff.1 h)]
  rfl

/-- A step that is taken keeps the verdict, so a reader may move past what it has read. -/
theorem verdict_step (hv : verdict source s pos = v) (h : source[pos]? = some ch)
    (hs : s.step ch = .ok s') : verdict source s' (pos + 1) = v := by
  rw [← hv, verdict_of_some h, hs]

/-- The machine takes a character behind a place. -/
theorem verdict_advance (hv : verdict source (.at p) pos = v) (h : source[pos]? = some ch)
    (hp : p.advance ch = .ok s') : verdict source s' (pos + 1) = v :=
  verdict_step hv h hp

/-- The machine takes a character that belongs to the piece that is being read. -/
theorem verdict_extend (hv : verdict source s pos = v) (h : source[pos]? = some ch)
    (hs : s.extend? ch = some s') : verdict source s' (pos + 1) = v :=
  verdict_step hv h (by rw [State.step, hs])

/-- A place that refuses the next character settles the verdict as that refusal. -/
theorem verdict_refused (hv : verdict source (.at p) pos = v) (h : source[pos]? = some ch)
    (hp : p.advance ch = .error refusal) : v = .error (refusal.fault source pos) := by
  have hstep : (State.at p).step ch = .error refusal := hp
  rw [← hv, verdict_of_some h, hstep]

/-- A place at which the source may not end settles the verdict at its end. -/
theorem verdict_finish (hv : verdict source (.at p) pos = v) (h : source[pos]? = none)
    (hp : p.finish = .error refusal) : v = .error (refusal.fault source pos) := by
  have hfinish : (State.at p).finish = .error refusal := hp
  rw [← hv, verdict_of_none h, hfinish]

/-- A piece is over where the next character does not belong to it, or at the end of the source. -/
theorem verdict_settle (hv : verdict source s pos = v)
    (h : ∀ ch, source[pos]? = some ch → s.extend? ch = none) :
    v = match s.settle source[pos]? with
      | .ok place => verdict source (.at place) pos
      | .error refusal => .error (refusal.fault source pos) := by
  subst hv
  cases hnext : source[pos]? with
  | none =>
    rw [verdict_of_none hnext, State.finish]
    cases hsettle : s.settle none with
    | ok place =>
      have hplace : (State.at place).finish = place.finish := rfl
      dsimp only
      rw [verdict_of_none hnext, hplace]
    | error refusal => rfl
  | some ch =>
    rw [verdict_of_some hnext, State.step, h ch hnext]
    cases hsettle : s.settle (some ch) with
    | ok place =>
      have hplace : (State.at place).step ch = place.advance ch := rfl
      dsimp only
      rw [verdict_of_some hnext, hplace]
    | error refusal => rfl

/-- Something else should stand here. -/
theorem verdict_expected {what : Expected} (hv : verdict source (.at p) pos = v)
    (hno : ∀ ch, source[pos]? = some ch → p.advance ch = refuse ch what)
    (hend : source[pos]? = none → p.finish = .error (.unexpected none 0 what)) :
    v = .error ((Refusal.unexpected source[pos]? 0 what).fault source pos) := by
  cases hnext : source[pos]? with
  | none => exact verdict_finish hv hnext (hend hnext)
  | some ch => exact verdict_refused hv hnext (hno ch hnext)

/-- Two places between which the next character makes no difference. -/
theorem verdict_congr {q : Place}
    (hadvance : ∀ ch, source[pos]? = some ch → p.advance ch = q.advance ch)
    (hfinish : source[pos]? = none → p.finish = q.finish) :
    verdict source (.at p) pos = verdict source (.at q) pos := by
  have hstep : ∀ (r : Place) (ch : Char), (State.at r).step ch = r.advance ch := fun _ _ => rfl
  have hend : ∀ r : Place, (State.at r).finish = r.finish := fun _ => rfl
  cases hnext : source[pos]? with
  | none => rw [verdict_of_none hnext, verdict_of_none hnext, hend, hend, hfinish hnext]
  | some ch => rw [verdict_of_some hnext, verdict_of_some hnext, hstep, hstep, hadvance ch hnext]

/-! ### Cursors -/

/-- So many characters further. -/
def Cursor.past (c : Cursor source) (n : Nat) (h : c.pos + n ≤ source.length) : Cursor source :=
  { c with pos := c.pos + n, pos_le := h }

/-- Behind the next character. -/
def Cursor.next (c : Cursor source) (h : source[c.pos]? = some ch) : Cursor source :=
  c.past 1 (List.getElem?_eq_some_iff.1 h).1

@[simp] theorem Cursor.pos_next {c : Cursor source} (h : source[c.pos]? = some ch) :
    (c.next h).pos = c.pos + 1 := rfl

/-- A cursor is before the ones that it can be moved to past some characters, with as much open. -/
instance : Preorder (Cursor source) where
  le c c' := c.pos ≤ c'.pos ∧ c'.depth = c.depth
  lt c c' := c.pos < c'.pos ∧ c'.depth = c.depth
  le_refl _ := ⟨Nat.le_refl _, rfl⟩
  le_trans _ _ _ h h' := ⟨Nat.le_trans h.1 h'.1, h'.2.trans h.2⟩
  lt_iff_le_not_ge _ _ :=
    ⟨fun h => ⟨⟨Nat.le_of_lt h.1, h.2⟩, fun h' => Nat.not_le.2 h.1 h'.1⟩,
      fun h => ⟨Nat.lt_of_not_le fun hle => h.2 ⟨hle, h.1.2.symm⟩, h.1.2⟩⟩

section Order

variable {c c' : Cursor source}

theorem Cursor.le_def : c ≤ c' ↔ c.pos ≤ c'.pos ∧ c'.depth = c.depth := Iff.rfl

theorem Cursor.lt_def : c < c' ↔ c.pos < c'.pos ∧ c'.depth = c.depth := Iff.rfl

theorem Cursor.lt_past {n : Nat} (hn : 0 < n) (h : c.pos + n ≤ source.length) : c < c.past n h :=
  Cursor.lt_def.2 ⟨Nat.lt_add_of_pos_right hn, rfl⟩

theorem Cursor.lt_next (h : source[c.pos]? = some ch) : c < c.next h :=
  Cursor.lt_past Nat.one_pos _

/-- What is reached from behind the next character. -/
theorem Cursor.lt_of_next {h : source[c.pos]? = some ch} (h' : c.next h ≤ c') : c < c' :=
  (Cursor.lt_next h).trans_le h'

end Order

/-- The descent halts at a fault, and the verdict is this fault. -/
def Halt.Gives (v : Except Fault (List Node)) : Halt → Prop
  | .fault f => v = .error f
  | .stalled | .overrun | .vanished | .overfull => False

namespace Descent

variable {σ α β : Type} {v : Except Fault (List Node)} {c : Cursor source}
  {d : Descent source α} {f : α → Descent source β}

/-! ### Parts of a descent -/

/-- From this cursor, the part of a descent ends as `post` says, or it halts at a fault, which is
the verdict.  It does not halt for any other reason. -/
def Leads (v : Except Fault (List Node)) (d : Descent source α) (c : Cursor source)
    (post : α → Cursor source → Prop) : Prop :=
  match d c with
  | .ok a c' => post a c'
  | .error halt _ => halt.Gives v

variable {post : α → Cursor source → Prop} {post' : β → Cursor source → Prop}

theorem Leads.mono {post' : α → Cursor source → Prop} (h : Leads v d c post)
    (hpost : ∀ a c', post a c' → post' a c') : Leads v d c post' := by
  unfold Leads at h ⊢
  cases hd : d c with
  | ok a c' => rw [hd] at h; exact hpost a c' h
  | error halt c' => rw [hd] at h; exact h

theorem leads_pure {a : α} : Leads v (pure a) c post ↔ post a c := Iff.rfl

/-- A descent in two parts leads where the second part leads from where the first one stopped. -/
theorem leads_bind :
    Leads v (d >>= f) c post' ↔ Leads v d c fun a c' => Leads v (f a) c' post' := by
  show (match EStateM.bind d f c with
    | .ok a c' => post' a c'
    | .error halt _ => halt.Gives v) ↔ _
  unfold Leads EStateM.bind
  cases d c with
  | ok a c' => exact Iff.rfl
  | error halt c' => exact Iff.rfl

theorem leads_get {post : Cursor source → Cursor source → Prop} : Leads v get c post ↔ post c c :=
  Iff.rfl

theorem leads_set {c' : Cursor source} {post : PUnit → Cursor source → Prop} :
    Leads v (set c') c post ↔ post ⟨⟩ c' := Iff.rfl

theorem leads_peek {post : Option Char → Cursor source → Prop} :
    Leads v peek c post ↔ post source[c.pos]? c := Iff.rfl

theorem leads_peekAt {ahead : Nat} {post : Option Char → Cursor source → Prop} :
    Leads v (peekAt ahead) c post ↔ post source[c.pos + ahead]? c := Iff.rfl

theorem leads_forward {n : Nat} {post : Unit → Cursor source → Prop}
    (h : c.pos + n ≤ source.length) : Leads v (forward n) c post ↔ post () (c.past n h) := by
  rw [Leads, forward, dif_pos h]
  exact Iff.rfl

theorem leads_forward_one {post : Unit → Cursor source → Prop} (h : source[c.pos]? = some ch) :
    Leads v (forward 1) c post ↔ post () (c.next h) :=
  leads_forward (List.getElem?_eq_some_iff.1 h).1

/-- A descent that blames leads somewhere only if its fault is the verdict. -/
theorem leads_blame {refusal : Refusal} :
    Leads v (blame refusal : Descent source α) c post ↔
      v = .error (refusal.fault source c.pos) := Iff.rfl

/-- An expectation that fails is blamed on what stands at the cursor, or on the end of the source.
-/
theorem leads_expected {what : Expected} :
    Leads v (expected what : Descent source α) c post ↔
      v = .error ((Refusal.unexpected source[c.pos]? 0 what).fault source c.pos) := Iff.rfl

theorem leads_bump_some {post : Option Char → Cursor source → Prop} (h : source[c.pos]? = some ch) :
    Leads v bump c post ↔ post (some ch) (c.next h) := by
  rw [bump, leads_bind, leads_peek, h]
  dsimp only
  rw [leads_bind, leads_forward_one h]
  exact Iff.rfl

theorem leads_bump_none {post : Option Char → Cursor source → Prop} (h : source[c.pos]? = none) :
    Leads v bump c post ↔ post none c := by
  rw [bump, leads_bind, leads_peek, h]
  exact Iff.rfl

theorem leads_eat_some {post : Bool → Cursor source → Prop} (h : source[c.pos]? = some ch) :
    Leads v (eat ch) c post ↔ post true (c.next h) := by
  rw [eat, leads_bind, leads_peek, if_pos h, leads_bind, leads_forward_one h]
  exact Iff.rfl

theorem leads_eat_other {post : Bool → Cursor source → Prop} (h : source[c.pos]? ≠ some ch) :
    Leads v (eat ch) c post ↔ post false c := by
  rw [eat, leads_bind, leads_peek, if_neg h]
  exact Iff.rfl

/-- A character that must come next comes next, or is what the source is at fault for. -/
theorem leads_expect {what : Expected} {post : Unit → Cursor source → Prop}
    (hthere : ∀ h : source[c.pos]? = some ch, post () (c.next h))
    (hother : source[c.pos]? ≠ some ch →
      v = .error ((Refusal.unexpected source[c.pos]? 0 what).fault source c.pos)) :
    Leads v (expect ch what) c post := by
  rw [expect, leads_bind]
  by_cases h : source[c.pos]? = some ch
  · rw [leads_eat_some h]
    exact hthere h
  · rw [leads_eat_other h]
    exact leads_expected.2 (hother h)

/-- Taking the character that stands at the cursor moves one place ahead. -/
theorem leads_take {post : Unit → Cursor source → Prop} (h : source[c.pos]? = some ch) :
    Leads v (take ch) c post ↔ post () (c.next h) := by
  rw [take, leads_bind, leads_eat_some h]
  exact Iff.rfl

theorem leads_startsWith {first second : Char} {post : Bool → Cursor source → Prop} :
    Leads v (startsWith first second) c post ↔
      post (decide (source[c.pos]? = some first ∧ source[c.pos + 1]? = some second)) c := Iff.rfl

/-! ### Loops -/

/-- **A loop comes to its end** if every round that is not the last one moves the cursor forward
and keeps the invariant, which is enough for the last one to end as it should. -/
theorem leads_loop {body : σ → Descent source (Round σ α)} (inv : σ → Cursor source → Prop)
    (hround : ∀ s c, inv s c → Leads v (body s) c fun round c' =>
      match round with
      | .again s' => c.pos < c'.pos ∧ inv s' c'
      | .done a => post a c')
    {s : σ} (h : inv s c) : Leads v (loop body s) c post := by
  -- The induction is on what is left of the source.
  induction hn : source.length - c.pos using Nat.strongRecOn generalizing s c with
  | ind n ih =>
    have hbody := hround s c h
    unfold Leads at hbody ⊢
    rw [loop]
    cases hres : body s c with
    | error halt c' => rw [hres] at hbody; exact hbody
    | ok round c' =>
      rw [hres] at hbody
      cases round with
      | done a => exact hbody
      | again s' =>
        obtain ⟨hforward, hinv⟩ := hbody
        dsimp only
        rw [if_pos hforward]
        have hle := c'.pos_le
        exact ih (source.length - c'.pos) (by omega) hinv rfl

/-- Characters are gathered up to the first one that is not of the class. -/
theorem leads_gather {p : Char → Bool} (inv : List Char → Nat → Prop)
    (hstep : ∀ read pos ch, inv read pos → source[pos]? = some ch → p ch = true →
      inv (ch :: read) (pos + 1)) {read : List Char} (h : inv read c.pos) :
    Leads v (gather p read) c fun read' c' =>
      inv read' c'.pos ∧ c'.depth = c.depth ∧ ∀ ch, source[c'.pos]? = some ch → p ch = false := by
  refine leads_loop (fun read' c' => inv read' c'.pos ∧ c'.depth = c.depth) ?_ ⟨h, rfl⟩
  rintro read' c' ⟨hinv, hdepth⟩
  rw [leads_bind, leads_peek]
  cases hnext : source[c'.pos]? with
  | none => exact ⟨hinv, hdepth, by simp [hnext]⟩
  | some ch =>
    dsimp only
    by_cases hp : p ch = true
    · rw [if_pos hp, leads_bind, leads_forward_one hnext]
      exact ⟨Nat.lt_succ_self _, hstep _ _ _ hinv hnext hp, hdepth⟩
    · rw [if_neg hp]
      exact ⟨hinv, hdepth, forall_next hnext (Bool.eq_false_iff.2 hp)⟩

/-- Where blanks stand for nothing the machine stays at its place. -/
theorem leads_skipBlanks (hp : p.skipsBlanks = true) (hv : verdict source (.at p) c.pos = v) :
    Leads v skipBlanks c fun _ c' =>
      c ≤ c' ∧ verdict source (.at p) c'.pos = v ∧
        ∀ ch, source[c'.pos]? = some ch → isBlank ch = false := by
  rw [skipBlanks, leads_bind]
  refine (leads_gather (fun _ pos => c.pos ≤ pos ∧ verdict source (.at p) pos = v) ?_
    ⟨Nat.le_refl _, hv⟩).mono ?_
  · rintro read pos ch ⟨hle, hpos⟩ hnext hblank
    exact ⟨Nat.le_succ_of_le hle,
      verdict_advance hpos hnext (Place.advance_blank hp hblank)⟩
  · rintro read c' ⟨⟨hle, hpos⟩, hdepth, hblank⟩
    exact ⟨Cursor.le_def.2 ⟨hle, hdepth⟩, hpos, hblank⟩

end Descent
end AgentSurface.Jsx
