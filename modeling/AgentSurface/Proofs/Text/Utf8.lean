import Mathlib.Tactic.SplitIfs
import AgentSurface.Text.Utf8

/-!
# Text — the bytes of a text, read back

The decoder of `Text/Utf8` against the encoding of the standard library.

* `read_of_prefix`: the beginning of a character's bytes is held back, and all of them are the
  character.
* `decode_append`: decoding two pieces one after the other is decoding them joined, so it does not
  matter where bytes are cut.
* `decode_encode`: the bytes of a text are decoded to the text, and nothing is held back.
-/

namespace AgentSurface.Text.Utf8

/-! ### Bytes as numbers -/

/-- The number of bytes that a leading byte announces. -/
theorem length?_eq (b : UInt8) :
    length? b =
      if b.toNat < 0x80 then some 1
      else if 0xC2 ≤ b.toNat ∧ b.toNat ≤ 0xDF then some 2
      else if 0xE0 ≤ b.toNat ∧ b.toNat ≤ 0xEF then some 3
      else if 0xF0 ≤ b.toNat ∧ b.toNat ≤ 0xF4 then some 4
      else none := by
  simp [length?, UInt8.lt_iff_toNat_lt, UInt8.le_iff_toNat_le]

theorem isContinuation_iff {b : UInt8} :
    isContinuation b = true ↔ 0x80 ≤ b.toNat ∧ b.toNat ≤ 0xBF := by
  simp [isContinuation, UInt8.le_iff_toNat_le]

/-- The second byte is bounded by the first where an encoding would be too long, a surrogate or too
high. -/
theorem allowsSecond_iff {first second : UInt8} :
    allowsSecond first second = true ↔
      (0x80 ≤ second.toNat ∧ second.toNat ≤ 0xBF) ∧
      (first.toNat = 0xE0 → 0xA0 ≤ second.toNat) ∧ (first.toNat = 0xED → second.toNat ≤ 0x9F) ∧
      (first.toNat = 0xF0 → 0x90 ≤ second.toNat) ∧ (first.toNat = 0xF4 → second.toNat ≤ 0x8F) := by
  simp only [allowsSecond, isContinuation, UInt8.le_iff_toNat_le, beq_iff_eq, ← UInt8.toNat_inj,
    UInt8.reduceToNat]
  split_ifs <;> simp <;> omega

/-! ### The bytes of one character -/

/-- The first byte of an encoding announces its length. -/
theorem length?_head_encode (c : Char) :
    (String.utf8EncodeChar c).head?.bind length? = some c.utf8Size := by
  have hv := c.valid
  simp only [UInt32.isValidChar, Nat.isValidChar] at hv
  rw [← String.length_utf8EncodeChar]
  fun_cases String.utf8EncodeChar c with
  | case1 v h =>
    have hlt : v % 256 < 128 := by omega
    simp [length?_eq, UInt8.toNat_ofNat', hlt]
  | case2 v h h' =>
    simp only [List.head?_cons, Option.bind_some, length?_eq, UInt8.toNat_ofNat']
    rw [if_neg, if_pos] <;> simp <;> omega
  | case3 v h h' h'' =>
    simp only [List.head?_cons, Option.bind_some, length?_eq, UInt8.toNat_ofNat']
    rw [if_neg, if_neg, if_pos] <;> simp <;> omega
  | case4 v h h' h'' =>
    simp only [List.head?_cons, Option.bind_some, length?_eq, UInt8.toNat_ofNat']
    rw [if_neg, if_neg, if_neg, if_pos] <;> simp <;> omega

/-- The bytes of an encoding follow one another as they should. -/
theorem wellFollowed_encode (c : Char) : wellFollowed (String.utf8EncodeChar c) = true := by
  have hv := c.valid
  simp only [UInt32.isValidChar, Nat.isValidChar] at hv
  fun_cases String.utf8EncodeChar c with
  | case1 v h => rfl
  | case2 v h h' =>
    simp [wellFollowed, allowsSecond_iff, UInt8.toNat_ofNat']
    omega
  | case3 v h h' h'' =>
    simp [wellFollowed, allowsSecond_iff, isContinuation_iff, UInt8.toNat_ofNat']
    omega
  | case4 v h h' h'' =>
    simp [wellFollowed, allowsSecond_iff, isContinuation_iff, UInt8.toNat_ofNat']
    omega

/-- An encoding has the code point of its character. -/
theorem codePoint_encode (c : Char) : codePoint (String.utf8EncodeChar c) = c.toNat := by
  have hv := c.valid
  have hn : c.val.toNat = c.toNat := rfl
  simp only [UInt32.isValidChar, Nat.isValidChar] at hv
  fun_cases String.utf8EncodeChar c <;>
    simp [codePoint, UInt8.lt_iff_toNat_lt, UInt8.toNat_ofNat'] <;> split_ifs <;> omega

theorem wellFollowed_of_append {xs : List UInt8} (ys : List UInt8)
    (h : wellFollowed (xs ++ ys) = true) :
    wellFollowed xs = true := by
  match xs with
  | [] | [_] => rfl
  | first :: second :: rest =>
    simp only [List.cons_append, wellFollowed, List.all_append, Bool.and_eq_true] at h ⊢
    exact ⟨h.1, h.2.1⟩

/-- The beginning of a character's bytes is read as a beginning, all of them as the character. -/
theorem read_of_prefix {c : Char} {p rest : List UInt8} (h : p ++ rest = String.utf8EncodeChar c)
    (hp : p ≠ []) : read p = if rest = [] then .complete c else .partway := by
  obtain ⟨first, p, rfl⟩ := List.exists_cons_of_ne_nil hp
  have hlen : (first :: p).length + rest.length = c.utf8Size := by
    rw [← List.length_append, h, String.length_utf8EncodeChar]
  have hfirst : length? first = some c.utf8Size := by
    have := length?_head_encode c
    rwa [← h] at this
  have hfollow : wellFollowed (first :: p) = true :=
    wellFollowed_of_append rest (by rw [h]; exact wellFollowed_encode c)
  cases rest with
  | nil =>
    have hcode : codePoint (first :: p) = c.toNat := by
      rw [← codePoint_encode, ← h, List.append_nil]
    have hle : (first :: p).length = c.utf8Size := by simpa using hlen
    simp only [read, hfirst, hfollow, hle, hcode, Nat.lt_irrefl]
    simp [Char.ofNat_toNat]
  | cons b rest =>
    have hlt : (first :: p).length < c.utf8Size := by simp at hlen ⊢; omega
    simp only [read, hfirst, hfollow, hlt]
    simp

/-! ### Decoding in pieces -/

theorem Decoder.start_eq (text : String) (b : UInt8) :
    Decoder.start text b = (text ++ (Decoder.start "" b).1, (Decoder.start "" b).2) := by
  unfold Decoder.start
  cases read [b] <;> simp

/-- What a byte settles does not depend on the text before. -/
theorem Decoder.step_eq (text : String) (d : Decoder) (b : UInt8) :
    Decoder.step text d b = (text ++ (Decoder.step "" d b).1, (Decoder.step "" d b).2) := by
  unfold Decoder.step
  split
  · exact Decoder.start_eq text b
  · cases read (d.held ++ [b]) with
    | complete c => simp
    | partway => simp
    | broken =>
      simp only [Decoder.start_eq (text.push replacement), Decoder.start_eq (String.push "" _)]
      simp [← String.toList_inj]

/-- What was decoded before stands in front of what is decoded next. -/
theorem Decoder.foldl_step (text : String) (d : Decoder) (bytes : List UInt8) :
    bytes.foldl (fun st b => Decoder.step st.1 st.2 b) (text, d) =
      (text ++ (d.decode bytes).1, (d.decode bytes).2) := by
  induction bytes generalizing text d with
  | nil => simp [Decoder.decode]
  | cons b rest ih =>
    simp only [Decoder.decode, List.foldl_cons]
    rw [Decoder.step_eq text d b, ih, ih]
    simp [String.append_assoc]

@[simp] theorem Decoder.decode_nil (d : Decoder) : d.decode [] = ("", d) := rfl

/-- Decoding two pieces one after the other is decoding them joined. -/
theorem Decoder.decode_append (d : Decoder) (xs ys : List UInt8) :
    d.decode (xs ++ ys) =
      ((d.decode xs).1 ++ ((d.decode xs).2.decode ys).1, ((d.decode xs).2.decode ys).2) := by
  rw [Decoder.decode, List.foldl_append]
  exact Decoder.foldl_step (d.decode xs).1 (d.decode xs).2 ys

/-- A byte that goes with the bytes held back settles their character or is held back too. -/
theorem Decoder.step_of_prefix {c : Char} {p rest : List UInt8} {b : UInt8}
    (h : p ++ b :: rest = String.utf8EncodeChar c) :
    Decoder.step "" ⟨p⟩ b =
      if rest = [] then (String.singleton c, ⟨[]⟩) else ("", ⟨p ++ [b]⟩) := by
  have hread : read (p ++ [b]) = if rest = [] then .complete c else .partway :=
    read_of_prefix (by simpa using h) (by simp)
  cases p with
  | nil =>
    rw [List.nil_append] at hread
    simp only [Decoder.step, Decoder.start, List.isEmpty_nil, if_true, hread]
    split_ifs <;> simp
  | cons a p =>
    simp only [Decoder.step, List.isEmpty_cons, Bool.false_eq_true, if_false, hread]
    split_ifs <;> simp

/-- Behind the beginning of a character, the rest of its bytes settles it. -/
theorem Decoder.decode_rest {c : Char} {p rest : List UInt8}
    (h : p ++ rest = String.utf8EncodeChar c) (hrest : rest ≠ []) :
    Decoder.decode ⟨p⟩ rest = (String.singleton c, ⟨[]⟩) := by
  induction rest generalizing p with
  | nil => exact absurd rfl hrest
  | cons b rest ih =>
    have hstep : Decoder.decode ⟨p⟩ [b] =
        if rest = [] then (String.singleton c, ⟨[]⟩) else ("", ⟨p ++ [b]⟩) :=
      Decoder.step_of_prefix h
    rw [← List.singleton_append, Decoder.decode_append, hstep]
    by_cases hr : rest = []
    · simp [hr]
    · rw [if_neg hr, ih (by simpa using h) hr]
      simp

/-- **The bytes of a text are read back.**  Nothing of them is held back. -/
theorem Decoder.decode_encode (text : String) :
    Decoder.decode ⟨[]⟩ text.toUTF8.data.toList = (text, ⟨[]⟩) := by
  have hbytes : text.toUTF8.data.toList = text.toList.flatMap String.utf8EncodeChar := by
    have h : (String.ofList text.toList).toUTF8 = text.toUTF8 := by rw [String.ofList_toList]
    rw [← h, String.toUTF8_eq_toByteArray, String.toByteArray_ofList, List.utf8Encode,
      List.data_toByteArray]
  -- The induction is on the characters, each of which leaves nothing held back.
  suffices h : ∀ cs : List Char,
      Decoder.decode ⟨[]⟩ (cs.flatMap String.utf8EncodeChar) = (String.ofList cs, ⟨[]⟩) by
    rw [hbytes, h, String.ofList_toList]
  intro cs
  induction cs with
  | nil => simp
  | cons c rest ih =>
    rw [List.flatMap_cons, Decoder.decode_append,
      Decoder.decode_rest (List.nil_append _) String.utf8EncodeChar_ne_nil, ih]
    simp [String.ofList_cons]

end AgentSurface.Text.Utf8
