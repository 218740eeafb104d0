/-!
# Text — reading one character at a time

The readers of this library are machines: a state, and a step that takes one character to the next
state or refuses it.  `feed` runs such a step over a text.  A refusal comes back with the part of
the text that begins at the refused character, so that its place can be told.

* `feed_append`: reading two texts one after the other is reading them joined.
* `exists_feed_of_append`: what is accepted is accepted up to each of its places.
-/

namespace AgentSurface.Text

variable {σ ε : Type}

/-- A refusal, and the text from the refused character on. -/
structure Stop (ε : Type) where
  reason : ε
  unread : List Char

/-- Take the characters of a text one by one. -/
def feed (step : σ → Char → Except ε σ) : σ → List Char → Except (Stop ε) σ
  | s, [] => .ok s
  | s, c :: rest =>
    match step s c with
    | .ok next => feed step next rest
    | .error reason => .error ⟨reason, c :: rest⟩

@[simp] theorem feed_nil (step : σ → Char → Except ε σ) (s : σ) : feed step s [] = .ok s := rfl

/-- A text that is accepted leaves the reader where the text after it begins. -/
theorem feed_append {step : σ → Char → Except ε σ} {s next : σ} {xs : List Char}
    (h : feed step s xs = .ok next) (ys : List Char) :
    feed step s (xs ++ ys) = feed step next ys := by
  induction xs generalizing s with
  | nil => cases h; rfl
  | cons c rest ih =>
    simp only [List.cons_append, feed] at h ⊢
    cases hs : step s c with
    | ok mid => simp only [hs] at h ⊢; exact ih h
    | error reason => simp [hs] at h

theorem feed_cons_eq_ok_iff {step : σ → Char → Except ε σ} {s last : σ} {c : Char}
    {rest : List Char} :
    feed step s (c :: rest) = .ok last ↔
      ∃ next, step s c = .ok next ∧ feed step next rest = .ok last := by
  rw [feed]
  cases step s c with
  | ok next => simp
  | error reason => simp

/-- What is accepted is accepted up to each of its places. -/
theorem exists_feed_of_append {step : σ → Char → Except ε σ} {s last : σ} {xs ys : List Char}
    (h : feed step s (xs ++ ys) = .ok last) :
    ∃ next, feed step s xs = .ok next ∧ feed step next ys = .ok last := by
  induction xs generalizing s with
  | nil => exact ⟨s, rfl, h⟩
  | cons c rest ih =>
    obtain ⟨mid, hmid, hrest⟩ := feed_cons_eq_ok_iff.1 h
    obtain ⟨next, hnext, hys⟩ := ih hrest
    exact ⟨next, feed_cons_eq_ok_iff.2 ⟨mid, hmid, hnext⟩, hys⟩

theorem exists_feed_of_concat {step : σ → Char → Except ε σ} {s last : σ} {xs : List Char}
    {c : Char} (h : feed step s (xs ++ [c]) = .ok last) :
    ∃ next, feed step s xs = .ok next ∧ step next c = .ok last := by
  obtain ⟨next, hnext, hlast⟩ := exists_feed_of_append h
  obtain ⟨_, hstep, hnil⟩ := feed_cons_eq_ok_iff.1 hlast
  cases hnil
  exact ⟨next, hnext, hstep⟩

end AgentSurface.Text
