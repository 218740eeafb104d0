import AgentSurface.Json.Path

/-!
# Json — places and their pointers

A path leads to a place in a value (`Json.at?`), and a pointer spells the path.  The text of a
pointer does not tell an index from a key, and it is cut at slashes, which may stand in keys.  So
reading it back takes three things: no token has a slash in it (`slash_not_mem_token`), undoing the
escapes gives the key again (`unescapeToken_escapeToken`), and the walk along the value meets an
array where the path has an index (`ofTokens_tokens`).

* `unescapeToken_eq`: the escapes are undone one kind after the other, that of the slash first.
* `ofPointer_pointer`: the pointer of a place is read as the path to it, whatever the keys are.
-/

namespace AgentSurface

namespace Text

variable {a b c x : Char} {s : List Char}

/-! ### Cutting at a separator -/

/-- Pieces without the separator, each behind one, come out again, behind an empty piece. -/
theorem split_flatMap {separator : Char} {pieces : List (List Char)}
    (h : ∀ piece ∈ pieces, separator ∉ piece) :
    split separator (pieces.flatMap (separator :: ·)) = [] :: pieces := by
  -- A piece takes in what stands before the next separator.
  have hpiece : ∀ (piece : List Char) (more : List (List Char)) (rest : List Char),
      separator ∉ piece → split separator rest = [] :: more →
      split separator (piece ++ rest) = piece :: more := by
    intro piece more rest hpiece hrest
    induction piece with
    | nil => exact hrest
    | cons c piece ih =>
      obtain ⟨hc, hpiece⟩ := List.ne_and_not_mem_of_not_mem_cons hpiece
      rw [List.cons_append, split, if_neg (Ne.symm hc), ih hpiece]
  induction pieces with
  | nil => rfl
  | cons piece more ih =>
    obtain ⟨hfirst, hmore⟩ := List.forall_mem_cons.1 h
    rw [List.flatMap_cons, List.cons_append, split, if_pos rfl,
      hpiece piece more _ hfirst (ih hmore)]

/-! ### Numbers -/

/-- The digits of a number have that number as their value. -/
theorem decimalValue_toDigits (n : Nat) : decimalValue (Nat.toDigits 10 n) = n := by
  have hfold : decimalValue (Nat.toDigits 10 n) = Nat.ofDigitChars 10 (Nat.toDigits 10 n) 0 := by
    simp only [decimalValue, decimalDigit, Nat.ofDigitChars_eq_foldl, Nat.mul_comm 10]
  rw [hfold, Nat.ofDigitChars_ten_toDigits]

/-- The digits of a number spell it, if it has 64 bits. -/
theorem word?_toDigits (n : Nat) :
    word? (Nat.toDigits 10 n) = if n < wordLimit then some n else none := by
  have hdigit : ∀ c ∈ Nat.toDigits 10 n, c.isDigit = true :=
    fun c hc => Nat.isDigit_of_mem_toDigits (by decide) (by decide) hc
  have hplus : (Nat.toDigits 10 n).head? ≠ some '+' := by
    intro hhead
    have hfalse := hdigit '+' (List.mem_of_head? hhead)
    simp at hfalse
  have hall : (Nat.toDigits 10 n).all Char.isDigit = true := List.all_eq_true.2 hdigit
  simp only [word?, if_neg hplus, decimalValue_toDigits, hall]
  simp [Nat.toDigits_ne_nil]

/-! ### Replacing two characters by one -/

/-- Put `c` in the place of each `a` that has a `b` behind it, from the left. -/
def replacePair (a b c : Char) : List Char → List Char
  | [] => []
  | [x] => [x]
  | x :: y :: rest =>
    if x = a ∧ y = b then c :: replacePair a b c rest else x :: replacePair a b c (y :: rest)

@[simp] theorem replacePair_nil : replacePair a b c [] = [] := rfl

@[simp] theorem replacePair_pair : replacePair a b c (a :: b :: s) = c :: replacePair a b c s := by
  simp [replacePair]

theorem replacePair_cons_of_ne (h : x ≠ a) :
    replacePair a b c (x :: s) = x :: replacePair a b c s := by
  cases s <;> simp [replacePair, h]

theorem replacePair_cons_of_head (h : s.head? ≠ some b) :
    replacePair a b c (x :: s) = x :: replacePair a b c s := by
  cases s with
  | nil => rfl
  | cons y rest =>
    have hy : y ≠ b := by simpa using h
    simp [replacePair, hy]

/-- What stands first stays there, unless it is replaced. -/
theorem head?_replacePair (s : List Char) :
    (replacePair a b c s).head? = s.head? ∨ (replacePair a b c s).head? = some c := by
  cases s with
  | nil => exact .inl rfl
  | cons x rest =>
    cases rest with
    | nil => exact .inl rfl
    | cons y rest => by_cases h : x = a ∧ y = b <;> simp [replacePair, h]

end Text

namespace Json

open Text (replacePair replacePair_pair replacePair_cons_of_ne replacePair_cons_of_head)

/-! ### Escapes -/

/-- **To undo the escapes is to put a slash for each `~1`, and then a tilde for each `~0`.** -/
theorem unescapeToken_eq (s : List Char) :
    unescapeToken s = replacePair '~' '0' '~' (replacePair '~' '1' '/' s) := by
  fun_induction unescapeToken s with
  | case1 => rfl
  | case2 c => rfl
  | case3 c d rest h ih =>
    obtain ⟨rfl, rfl⟩ := h
    rw [replacePair_pair, replacePair_cons_of_ne (by decide), ih]
  | case4 c d rest _ h ih =>
    obtain ⟨rfl, rfl⟩ := h
    rw [replacePair_cons_of_head (by simp), replacePair_cons_of_ne (x := '0') (by decide),
      replacePair_pair, ih]
  | case5 c d rest hslash htilde ih =>
    by_cases hc : c = '~'
    · -- A tilde that begins no escape: no `0` comes to stand behind it either.
      subst hc
      have hone : (d :: rest).head? ≠ some '1' := by simpa using hslash
      have hzero : (replacePair '~' '1' '/' (d :: rest)).head? ≠ some '0' := by
        rcases Text.head?_replacePair (a := '~') (b := '1') (c := '/') (d :: rest) with h | h
        · rw [h]; simpa using htilde
        · rw [h]; decide
      rw [replacePair_cons_of_head hone, replacePair_cons_of_head hzero, ih]
    · rw [replacePair_cons_of_ne hc, replacePair_cons_of_ne hc, ih]

/-- In the other order the escape of a tilde with `1` behind it would come out as a slash. -/
example : replacePair '~' '1' '/' (replacePair '~' '0' '~' ['~', '0', '1']) = ['/'] ∧
    unescapeToken ['~', '0', '1'] = ['~', '1'] := by decide

/-- A key with its tildes escaped, and its slashes as they are. -/
def escapeTildes (key : List Char) : List Char :=
  key.flatMap fun c => if c = '~' then ['~', '0'] else [c]

/-- Undoing the slash first leaves only the tildes escaped. -/
theorem replacePair_slash_escapeToken (key : List Char) :
    replacePair '~' '1' '/' (escapeToken key) = escapeTildes key := by
  induction key with
  | nil => rfl
  | cons c rest ih =>
    rw [escapeTildes, List.flatMap_cons, ← escapeTildes, ← ih]
    by_cases htilde : c = '~'
    · rw [escapeToken, if_pos htilde, if_pos htilde, replacePair_cons_of_head (by simp),
        replacePair_cons_of_ne (by decide)]
      rfl
    · by_cases hslash : c = '/'
      · rw [escapeToken, if_neg htilde, if_pos hslash, if_neg htilde, replacePair_pair, hslash]
        rfl
      · rw [escapeToken, if_neg htilde, if_neg hslash, if_neg htilde,
          replacePair_cons_of_ne htilde]
        rfl

theorem replacePair_tilde_escapeTildes (key : List Char) :
    replacePair '~' '0' '~' (escapeTildes key) = key := by
  induction key with
  | nil => rfl
  | cons c rest ih =>
    rw [escapeTildes, List.flatMap_cons, ← escapeTildes]
    by_cases htilde : c = '~'
    · rw [if_pos htilde, htilde]
      exact (replacePair_pair).trans (congrArg _ ih)
    · rw [if_neg htilde, List.singleton_append, replacePair_cons_of_ne htilde, ih]

/-- Unescaping undoes escaping. -/
theorem unescapeToken_escapeToken (key : List Char) : unescapeToken (escapeToken key) = key := by
  rw [unescapeToken_eq, replacePair_slash_escapeToken, replacePair_tilde_escapeTildes]

/-- An escaped key has no slash, so slashes part the tokens. -/
theorem slash_not_mem_escapeToken (key : List Char) : '/' ∉ escapeToken key := by
  induction key with
  | nil => exact List.not_mem_nil
  | cons c rest ih =>
    rw [escapeToken]
    split
    · simp [ih]
    · split
      · simp [ih]
      · next hslash => simp [Ne.symm hslash, ih]

/-! ### Tokens -/

/-- A segment as a pointer spells it. -/
def Segment.token : Segment → List Char
  | .key k => escapeToken k.toList
  | .index i => Nat.toDigits 10 i

theorem slash_not_mem_token (segment : Segment) : '/' ∉ segment.token := by
  cases segment with
  | key k => exact slash_not_mem_escapeToken k.toList
  | index i =>
    intro hmem
    have hdigit : '/'.isDigit = true := Nat.isDigit_of_mem_toDigits (by decide) (by decide) hmem
    simp at hdigit

/-- Digits are no escapes. -/
theorem unescapeToken_toDigits (n : Nat) :
    unescapeToken (Nat.toDigits 10 n) = Nat.toDigits 10 n := by
  have hplain : ∀ s : List Char, '~' ∉ s → unescapeToken s = s := by
    intro s
    fun_induction unescapeToken s with
    | case1 | case2 => simp
    | case3 c d rest h | case4 c d rest _ h => simp [h]
    | case5 c d rest _ _ ih =>
      intro hmem
      rw [ih fun h => hmem (List.mem_cons_of_mem c h)]
  refine hplain _ fun hmem => ?_
  have hdigit : '~'.isDigit = true := Nat.isDigit_of_mem_toDigits (by decide) (by decide) hmem
  simp at hdigit

/-- A pointer is its tokens with a slash in front of each. -/
theorem Path.pointer_eq (path : Path) :
    path.pointer = String.ofList ((path.map Segment.token).flatMap ('/' :: ·)) := by
  rw [Path.pointer, List.flatMap_map]
  congr 2
  funext segment
  cases segment <;> rfl

/-- A pointer is cut into the tokens of its path. -/
theorem Path.ofPointer_pointer_eq (v : Json) (path : Path) :
    Path.ofPointer v path.pointer = Path.ofTokens (some v) (path.map Segment.token) := by
  have hpieces : ∀ token ∈ path.map Segment.token, '/' ∉ token := by
    intro token htoken
    obtain ⟨segment, -, rfl⟩ := List.mem_map.1 htoken
    exact slash_not_mem_token segment
  rw [Path.ofPointer, Path.pointer_eq, String.toList_ofList, Text.split_flatMap hpieces]
  rfl

/-! ### Places -/

/-- The value at the place that a path leads to. -/
def at? (v : Json) : Path → Option Json
  | [] => some v
  | .key k :: rest => (v.get? k).bind fun child => child.at? rest
  | .index i :: rest => (v.items?.bind (·[i]?)).bind fun child => child.at? rest

/-- The indices of a path are numbers of 64 bits. -/
def Path.Addressable (path : Path) : Prop := ∀ i, .index i ∈ path → i < Text.wordLimit

theorem Path.addressable_cons {segment : Segment} {path : Path} :
    Path.Addressable (segment :: path) ↔
      (∀ i, segment = .index i → i < Text.wordLimit) ∧ path.Addressable := by
  simp only [Path.Addressable, List.mem_cons]
  constructor
  · exact fun h => ⟨fun i hi => h i (.inl hi.symm), fun i hi => h i (.inr hi)⟩
  · rintro ⟨hfirst, hrest⟩ i (hi | hi)
    · exact hfirst i hi.symm
    · exact hrest i hi

/-- **The tokens of a place, read along the value, are the path to it** as far as its indices are
numbers that can be read. -/
theorem ofTokens_tokens {v w : Json} {path : Path} (h : v.at? path = some w) :
    Path.ofTokens (some v) (path.map Segment.token) = path ↔ path.Addressable := by
  induction path generalizing v with
  | nil => simp [Path.ofTokens, Path.Addressable]
  | cons segment rest ih =>
    obtain ⟨child, hchild, hrest⟩ : ∃ child, (match segment with
        | .key k => v.get? k
        | .index i => v.items?.bind (·[i]?)) = some child ∧ child.at? rest = some w := by
      cases segment <;> exact Option.bind_eq_some_iff.1 h
    rw [Path.addressable_cons, List.map_cons, ← ih hrest]
    cases segment with
    | key k =>
      obtain ⟨fields, hfields, hget⟩ := Option.bind_eq_some_iff.1 hchild
      obtain rfl : v = .object fields := by cases v <;> simp_all [fields?]
      simp [Path.ofTokens, Segment.token, unescapeToken_escapeToken, hget]
    | index i =>
      obtain ⟨items, hitems, hget⟩ := Option.bind_eq_some_iff.1 hchild
      obtain rfl : v = .array items := by cases v <;> simp_all [items?]
      by_cases hi : i < Text.wordLimit
      · simp [Path.ofTokens, Segment.token, unescapeToken_toDigits, Text.word?_toDigits, hi, hget]
      · simp [Path.ofTokens, Segment.token, unescapeToken_toDigits, Text.word?_toDigits, hi]

/-- **The pointer of a place is read as the path to the place.**  Take any value and any place in
it, with the keys and indices that lead there: whatever its keys are, empty, spelled like numbers or
with tildes and slashes, the pointer that spells them is read along the value as just these keys and
indices.  Indices are read as numbers of 64 bits, which those of all lists in a memory are; a place
behind them, and no other, is read as something else. -/
theorem ofPointer_pointer {v w : Json} {path : Path} (h : v.at? path = some w) :
    Path.ofPointer v path.pointer = path ↔ path.Addressable := by
  rw [Path.ofPointer_pointer_eq, ofTokens_tokens h]

/-- An empty key, an index, a key that looks like an escape, and a key that looks like an index. -/
theorem ofPointer_pointer_odd_keys :
    let v : Json := .object [("", .array [.null, .object [("~1", .object [("0", .bool true)])]])]
    let path : Path := [.key "", .index 1, .key "~1", .key "0"]
    v.at? path = some (.bool true) ∧ path.pointer = "//1/~01/0" ∧
      Path.ofPointer v "//1/~01/0" = path := by
  intro v path
  have hplace : v.at? path = some (.bool true) := rfl
  have hpointer : path.pointer = "//1/~01/0" := by decide
  have haddressable : path.Addressable := by simp [path, Path.Addressable, Text.wordLimit]
  exact ⟨hplace, hpointer, hpointer ▸ (ofPointer_pointer hplace).2 haddressable⟩

end Json
end AgentSurface
