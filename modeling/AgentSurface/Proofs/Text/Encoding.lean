import AgentSurface.Proofs.Text.Utf8

/-!
# Text — what bytes are read as

The reading of bytes, told from the bytes of the characters: a character is read exactly from its
bytes (`read_eq_complete_iff`), and more bytes are awaited exactly behind the beginning of some
character's (`read_eq_partway_iff`).

* `encode_codePoint`: a character from as many bytes as the first of them asks for.
* `eq_of_encode_append`, `eq_of_unfinished_suffix`: no character's bytes go on as another's, and
  none begin inside another's.
-/

namespace AgentSurface.Text.Utf8

/-- The beginning of a character's bytes, and not all of them. -/
def Unfinished (p : List UInt8) : Prop :=
  p ≠ [] ∧ ∃ c rest, rest ≠ [] ∧ p ++ rest = String.utf8EncodeChar c

/-! ### The character of some bytes -/

/-- The leading bytes, by the number of bytes they announce. -/
theorem lead_of_length? {b : UInt8} {n : Nat} (h : length? b = some n) :
    (b.toNat < 0x80 ∧ n = 1) ∨ (0xC2 ≤ b.toNat ∧ b.toNat ≤ 0xDF ∧ n = 2) ∨
      (0xE0 ≤ b.toNat ∧ b.toNat ≤ 0xEF ∧ n = 3) ∨ (0xF0 ≤ b.toNat ∧ b.toNat ≤ 0xF4 ∧ n = 4) := by
  rw [length?_eq] at h
  split_ifs at h <;> cases h <;> omega

theorem val_ofNat {n : Nat} (h : n.isValidChar) : (Char.ofNat n).val.toNat = n := by
  rw [Char.ofNat, dif_pos h]
  rfl

theorem ofNat_eq {n : Nat} {b : UInt8} (h : n = b.toNat) : UInt8.ofNat n = b := by
  rw [h, UInt8.ofNat_toNat]

theorem encode_one {a : UInt8} (ha : a.toNat < 0x80) :
    String.utf8EncodeChar (Char.ofNat (codePoint [a])) = [a] := by
  have hcode : codePoint [a] = a.toNat := by
    simp [codePoint, UInt8.lt_iff_toNat_lt, ha]
  have hvalid : a.toNat.isValidChar := .inl (by omega)
  rw [hcode, String.utf8EncodeChar, val_ofNat hvalid, if_pos (by omega), UInt8.ofNat_toNat]

theorem encode_two {a b : UInt8} (ha : 0xC2 ≤ a.toNat ∧ a.toNat ≤ 0xDF)
    (hfollow : wellFollowed [a, b] = true) :
    String.utf8EncodeChar (Char.ofNat (codePoint [a, b])) = [a, b] := by
  simp only [wellFollowed, List.all_nil, Bool.and_true, allowsSecond_iff] at hfollow
  have hcode : codePoint [a, b] = a.toNat % 32 * 64 + b.toNat % 64 := by
    simp only [codePoint, List.foldl_cons, List.foldl_nil, UInt8.lt_iff_toNat_lt,
      UInt8.reduceToNat]
    rw [if_neg (by omega), if_pos (by omega)]
  have hvalid : (a.toNat % 32 * 64 + b.toNat % 64).isValidChar := .inl (by omega)
  rw [hcode, String.utf8EncodeChar, val_ofNat hvalid, if_neg (by omega), if_pos (by omega),
    ofNat_eq (b := a) (by omega), ofNat_eq (b := b) (by omega)]

theorem encode_three {a b c : UInt8} (ha : 0xE0 ≤ a.toNat ∧ a.toNat ≤ 0xEF)
    (hfollow : wellFollowed [a, b, c] = true) :
    String.utf8EncodeChar (Char.ofNat (codePoint [a, b, c])) = [a, b, c] := by
  simp only [wellFollowed, List.all_cons, List.all_nil, Bool.and_true, Bool.and_eq_true,
    allowsSecond_iff, isContinuation_iff] at hfollow
  have hcode : codePoint [a, b, c] = (a.toNat % 16 * 64 + b.toNat % 64) * 64 + c.toNat % 64 := by
    simp only [codePoint, List.foldl_cons, List.foldl_nil, UInt8.lt_iff_toNat_lt,
      UInt8.reduceToNat]
    rw [if_neg (by omega), if_neg (by omega), if_pos (by omega)]
  have hvalid : ((a.toNat % 16 * 64 + b.toNat % 64) * 64 + c.toNat % 64).isValidChar := by
    unfold Nat.isValidChar
    omega
  rw [hcode, String.utf8EncodeChar, val_ofNat hvalid, if_neg (by omega), if_neg (by omega),
    if_pos (by omega), ofNat_eq (b := a) (by omega), ofNat_eq (b := b) (by omega),
    ofNat_eq (b := c) (by omega)]

theorem encode_four {a b c d : UInt8} (ha : 0xF0 ≤ a.toNat ∧ a.toNat ≤ 0xF4)
    (hfollow : wellFollowed [a, b, c, d] = true) :
    String.utf8EncodeChar (Char.ofNat (codePoint [a, b, c, d])) = [a, b, c, d] := by
  simp only [wellFollowed, List.all_cons, List.all_nil, Bool.and_true, Bool.and_eq_true,
    allowsSecond_iff, isContinuation_iff] at hfollow
  have hcode : codePoint [a, b, c, d] =
      ((a.toNat % 8 * 64 + b.toNat % 64) * 64 + c.toNat % 64) * 64 + d.toNat % 64 := by
    simp only [codePoint, List.foldl_cons, List.foldl_nil, UInt8.lt_iff_toNat_lt,
      UInt8.reduceToNat]
    rw [if_neg (by omega), if_neg (by omega), if_neg (by omega)]
  have hvalid : (((a.toNat % 8 * 64 + b.toNat % 64) * 64 + c.toNat % 64) * 64 +
      d.toNat % 64).isValidChar := by
    unfold Nat.isValidChar
    omega
  rw [hcode, String.utf8EncodeChar, val_ofNat hvalid, if_neg (by omega), if_neg (by omega),
    if_neg (by omega), ofNat_eq (b := a) (by omega), ofNat_eq (b := b) (by omega),
    ofNat_eq (b := c) (by omega), ofNat_eq (b := d) (by omega)]

/-- As many bytes as the first of them asks for, all of them well placed, are a character's. -/
theorem encode_codePoint {first : UInt8} {tail : List UInt8}
    (hlen : length? first = some (tail.length + 1))
    (hfollow : wellFollowed (first :: tail) = true) :
    String.utf8EncodeChar (Char.ofNat (codePoint (first :: tail))) = first :: tail := by
  have hlead := lead_of_length? hlen
  match tail with
  | [] => exact encode_one (by simp at hlead; omega)
  | [b] => exact encode_two (by simp at hlead; omega) hfollow
  | [b, c] => exact encode_three (by simp at hlead; omega) hfollow
  | [b, c, d] => exact encode_four (by simp at hlead; omega) hfollow
  | _ :: _ :: _ :: _ :: _ => simp only [List.length_cons] at hlead; omega

/-- What is read as a whole character is that character's encoding. -/
theorem eq_encode_of_read {p : List UInt8} {c : Char} (h : read p = .complete c) :
    p = String.utf8EncodeChar c := by
  unfold read at h
  split at h
  · cases h
  · next first tail =>
    split at h
    · cases h
    · next n hn =>
      split_ifs at h with hfollow hshort hlen
      cases h
      exact (encode_codePoint (by rw [hn, ← hlen]; rfl) (by simpa using hfollow)).symm

/-- A character is read exactly from its encoding. -/
theorem read_eq_complete_iff {p : List UInt8} {c : Char} :
    read p = .complete c ↔ p = String.utf8EncodeChar c := by
  refine ⟨eq_encode_of_read, fun h => ?_⟩
  subst h
  exact ( read_of_prefix (List.append_nil _) String.utf8EncodeChar_ne_nil).trans (if_pos rfl)

/-- Each unfinished sequence of bytes can be gone on with. -/
theorem exists_wellFollowed {p : List UInt8} (hp : p ≠ []) (h : wellFollowed p = true) (k : Nat) :
    ∃ rest, rest.length = k ∧ wellFollowed (p ++ rest) = true := by
  cases p with
  | nil => exact absurd rfl hp
  | cons first tail =>
    cases tail with
    | cons second tail =>
      simp only [wellFollowed, Bool.and_eq_true] at h
      exact ⟨List.replicate k 0x80, List.length_replicate,
        by simp [wellFollowed, h, isContinuation]⟩
    | nil =>
      cases k with
      | zero => exact ⟨[], rfl, rfl⟩
      | succ k =>
        have hsecond : ∃ second, allowsSecond first second = true := by
          simp only [allowsSecond_iff]
          by_cases hthree : first.toNat = 0xE0
          · exact ⟨0xA0, by simp [hthree]⟩
          by_cases hfour : first.toNat = 0xF0
          · exact ⟨0x90, by simp [hfour]⟩
          · exact ⟨0x80, by simp [hthree, hfour]⟩
        obtain ⟨second, hsecond⟩ := hsecond
        exact ⟨second :: List.replicate k 0x80, by simp,
          by simp [wellFollowed, hsecond, isContinuation]⟩

theorem unfinished_of_read {p : List UInt8} (hp : p ≠ []) (h : read p = .partway) :
    Unfinished p := by
  obtain ⟨first, tail, rfl⟩ := List.exists_cons_of_ne_nil hp
  simp only [read] at h
  split at h
  · cases h
  · next n hn =>
    split_ifs at h with hfollow hshort
    obtain ⟨rest, hrest, hwhole⟩ :=
      exists_wellFollowed hp (by simpa using hfollow) (n - (first :: tail).length)
    have hlen : length? first = some ((tail ++ rest).length + 1) := by
      rw [hn, List.length_append, hrest]
      simp only [List.length_cons] at hshort ⊢
      congr 1
      omega
    refine ⟨hp, _, rest, ?_, (encode_codePoint hlen hwhole).symm⟩
    rintro rfl
    simp only [List.length_nil] at hrest
    omega

/-- Bytes are partway exactly where they begin the encoding of a character. -/
theorem read_eq_partway_iff {p : List UInt8} (hp : p ≠ []) : read p = .partway ↔ Unfinished p := by
  refine ⟨unfinished_of_read hp, fun ⟨_, c, rest, hrest, h⟩ => ?_⟩
  rw [ read_of_prefix h hp, if_neg hrest]

/-- Bytes that are broken are the beginning of no character's. -/
theorem not_prefix_of_broken {p : List UInt8} (h : read p = .broken) (c : Char) :
    ¬ p <+: String.utf8EncodeChar c := by
  rintro ⟨rest, hrest⟩
  by_cases hp : p = []
  · subst hp
    cases h
  · rw [ read_of_prefix hrest hp] at h
    split_ifs at h

/-! ### Where characters begin and end -/

theorem Unfinished.read {p : List UInt8} (h : Unfinished p) : Utf8.read p = .partway :=
  (read_eq_partway_iff h.1).2 h

/-- No character's bytes go on as another's. -/
theorem eq_of_encode_append {c d : Char} {rest : List UInt8}
    (h : String.utf8EncodeChar c ++ rest = String.utf8EncodeChar d) : rest = [] ∧ c = d := by
  have hread := read_of_prefix h String.utf8EncodeChar_ne_nil
  rw [read_eq_complete_iff.2 rfl] at hread
  split_ifs at hread with hrest
  exact ⟨hrest, Reading.complete.inj hread⟩

/-- No whole encoding stands in front of unfinished bytes. -/
theorem Unfinished.not_encode_prefix {p : List UInt8} (h : Unfinished p) (c : Char) :
    ¬ String.utf8EncodeChar c <+: p := by
  rintro ⟨more, rfl⟩
  obtain ⟨-, d, rest, hrest, hd⟩ := h
  rw [List.append_assoc] at hd
  exact hrest (List.append_eq_nil_iff.1 (eq_of_encode_append hd).1).2

/-- The bytes before a byte of an unfinished character are one too. -/
theorem Unfinished.of_concat {p : List UInt8} {b : UInt8} (h : Unfinished (p ++ [b]))
    (hp : p ≠ []) : Unfinished p := by
  obtain ⟨-, c, rest, -, hc⟩ := h
  exact ⟨hp, c, b :: rest, by simp, by simpa using hc⟩

/-- At most three bytes are held back. -/
theorem Unfinished.length_le {p : List UInt8} (h : Unfinished p) : p.length ≤ 3 := by
  obtain ⟨-, c, rest, hrest, hc⟩ := h
  have hlen := congrArg List.length hc
  rw [List.length_append, String.length_utf8EncodeChar] at hlen
  have hpos := List.length_pos_iff.2 hrest
  have hsize := c.utf8Size_le_four
  omega

/-- Only the first byte of a character can begin one. -/
theorem length?_of_follows {p : List UInt8} {first b : UInt8} (h : wellFollowed (first :: p) = true)
    (hb : b ∈ p) : length? b = none := by
  have hrange : 0x80 ≤ b.toNat ∧ b.toNat ≤ 0xBF := by
    cases p with
    | nil => cases hb
    | cons second tail =>
      simp only [wellFollowed, Bool.and_eq_true, List.all_eq_true] at h
      rcases List.mem_cons.1 hb with rfl | hb
      · exact (allowsSecond_iff.1 h.1).1
      · exact isContinuation_iff.1 (h.2 b hb)
  rw [length?_eq, if_neg (by omega), if_neg (by omega), if_neg (by omega), if_neg (by omega)]

/-- Behind its first byte, no part of a character's bytes begins one. -/
theorem eq_of_unfinished_suffix {p q : List UInt8} {c : Char} (hp : Unfinished p)
    (hq : q <+: String.utf8EncodeChar c) (h : p <:+ q) : p = q := by
  obtain ⟨before, rfl⟩ := h
  cases before with
  | nil => rfl
  | cons first before =>
    obtain ⟨b, tail, rfl⟩ := List.exists_cons_of_ne_nil hp.1
    obtain ⟨rest, hrest⟩ := hq
    have hfollow : wellFollowed (first :: (before ++ b :: tail)) = true :=
      wellFollowed_of_append rest (by rw [← List.cons_append, hrest]; exact wellFollowed_encode c)
    have hread := hp.read
    simp [Utf8.read, length?_of_follows hfollow (b := b) (by simp)] at hread

end AgentSurface.Text.Utf8
