/-!
# Text — cutting a text

`split` cuts a text at separators, `splitAtByte?` at a place that is counted in the bytes of UTF-8,
and `between?` cuts a part out between two such places.

* `splitAtByte?_append`: a text can be cut where one part of it ends, and only the parts come out.
* `between?_eq_some_iff`: what stands between two places are the parts of the text that begin at the
  one and end at the other.
-/

namespace AgentSurface.Text

/-- The pieces of a text between separators: one more than there are separators. -/
def split (separator : Char) : List Char → List (List Char)
  | [] => [[]]
  | c :: rest =>
    if c = separator then [] :: split separator rest
    else
      match split separator rest with
      | piece :: pieces => (c :: piece) :: pieces
      | [] => [[c]]

/-- The number of bytes of a text. -/
def byteLength : List Char → Nat
  | [] => 0
  | c :: rest => c.utf8Size + byteLength rest

/-- The text before and behind the first `n` bytes; nothing if that place is inside a character or
behind the end. -/
def splitAtByte? : Nat → List Char → Option (List Char × List Char)
  | 0, s => some ([], s)
  | _ + 1, [] => none
  | n + 1, c :: rest =>
    if c.utf8Size ≤ n + 1 then
      (splitAtByte? (n + 1 - c.utf8Size) rest).map fun (before, behind) => (c :: before, behind)
    else none

theorem splitAtByte?_append (s t : List Char) :
    splitAtByte? (byteLength s) (s ++ t) = some (s, t) := by
  induction s with
  | nil => simp [byteLength, splitAtByte?]
  | cons c rest ih =>
    obtain ⟨n, hn⟩ : ∃ n, byteLength (c :: rest) = n + 1 :=
      ⟨c.utf8Size - 1 + byteLength rest, by have := c.utf8Size_pos; simp only [byteLength]; omega⟩
    have hle : c.utf8Size ≤ n + 1 := by rw [← hn, byteLength]; omega
    have hsub : n + 1 - c.utf8Size = byteLength rest := by rw [← hn, byteLength]; omega
    rw [hn, List.cons_append, splitAtByte?, if_pos hle, hsub, ih]
    rfl

theorem splitAtByte?_eq_some_iff {n : Nat} {s before behind : List Char} :
    splitAtByte? n s = some (before, behind) ↔ s = before ++ behind ∧ n = byteLength before := by
  refine ⟨fun h => ?_, fun h => h.1 ▸ h.2 ▸ splitAtByte?_append before behind⟩
  induction s generalizing n before with
  | nil =>
    cases n with
    | zero => cases h; exact ⟨rfl, rfl⟩
    | succ n => cases h
  | cons c rest ih =>
    cases n with
    | zero => cases h; exact ⟨rfl, rfl⟩
    | succ n =>
      rw [splitAtByte?] at h
      split at h
      · next hle =>
        obtain ⟨⟨first, last⟩, hrest, hparts⟩ := Option.map_eq_some_iff.1 h
        cases hparts
        obtain ⟨rfl, hn⟩ := ih hrest
        exact ⟨rfl, by rw [byteLength, ← hn]; omega⟩
      · cases h

theorem byteLength_toList (s : String) : byteLength s.toList = s.utf8ByteSize := by
  have hlist : ∀ cs : List Char, byteLength cs = (String.ofList cs).utf8ByteSize := by
    intro cs
    induction cs with
    | nil => rfl
    | cons c rest ih => simp [byteLength, ih, String.ofList_cons]
  rw [hlist, String.ofList_toList]

/-! ### Parts of a text -/

/-- What stands between two places, counted in bytes; nothing if one of them is no place between
characters, or if they come in the wrong order. -/
def between? (s : String) (start stop : Nat) : Option String := do
  let (before, _) ← splitAtByte? stop s.toList
  let (_, part) ← splitAtByte? start before
  return String.ofList part

theorem between?_eq_some_iff {s part : String} {start stop : Nat} :
    between? s start stop = some part ↔ ∃ before behind, s = before ++ part ++ behind ∧
      start = before.utf8ByteSize ∧ stop = (before ++ part).utf8ByteSize := by
  simp only [between?, Option.pure_def, Option.bind_eq_bind, Option.bind_eq_some_iff, Prod.exists,
    splitAtByte?_eq_some_iff, Option.some.injEq]
  constructor
  · rintro ⟨-, behind, ⟨htext, hstop⟩, before, part, ⟨rfl, rfl⟩, rfl⟩
    refine ⟨String.ofList before, String.ofList behind, ?_, ?_, ?_⟩
    · simpa [← String.toList_inj] using htext
    · simp [← byteLength_toList]
    · simp [hstop, ← byteLength_toList]
  · rintro ⟨before, behind, rfl, rfl, rfl⟩
    exact ⟨(before ++ part).toList, behind.toList, ⟨by simp, (byteLength_toList _).symm⟩,
      before.toList, part.toList, ⟨by simp, (byteLength_toList _).symm⟩, by simp⟩

/-- A part of a text stands between the place where it begins and the place where it ends. -/
theorem between?_append (before part behind : String) :
    between? (before ++ part ++ behind) before.utf8ByteSize (before ++ part).utf8ByteSize =
      some part :=
  between?_eq_some_iff.2 ⟨before, behind, rfl, rfl, rfl⟩

/-! ### The place of a character -/

/-- The number of bytes before the first `c`. -/
def bytesBefore? (c : Char) : List Char → Option Nat
  | [] => none
  | d :: rest => if d = c then some 0 else (bytesBefore? c rest).map (d.utf8Size + ·)

theorem bytesBefore?_of_not_mem {c : Char} {s : List Char} (h : c ∉ s) :
    bytesBefore? c s = none := by
  induction s with
  | nil => rfl
  | cons d rest ih =>
    obtain ⟨hd, hrest⟩ := List.ne_and_not_mem_of_not_mem_cons h
    rw [bytesBefore?, if_neg (Ne.symm hd), ih hrest]
    rfl

theorem bytesBefore?_append {c : Char} {s : List Char} (h : c ∉ s) (rest : List Char) :
    bytesBefore? c (s ++ c :: rest) = some (byteLength s) := by
  induction s with
  | nil => simp [bytesBefore?, byteLength]
  | cons d s ih =>
    obtain ⟨hd, hs⟩ := List.ne_and_not_mem_of_not_mem_cons h
    rw [List.cons_append, bytesBefore?, if_neg (Ne.symm hd), ih hs]
    rfl

end AgentSurface.Text
