import AgentSurface.Json.Printer

/-!
# Json — whole numbers are read as they are written

The decimal digits of a number are read one after the other, the first of them not zero, and the
digits that were read stand for the number again (`exists_digits`).

* `ofText?_renderInt`: a whole number of 64 bits, written in decimal, is read as itself.
-/

namespace AgentSurface.Json

theorem digit?_digitChar : ∀ k < 10, digit? (Nat.digitChar k) = some k := by decide

/-- The first digit is not zero, and behind it the other digits are read. -/
theorem exists_digits {n : Nat} (hn : 0 < n) :
    ∃ c cs d ds, digits n = c :: cs ∧ digit? c = some d ∧ d ≠ 0 ∧ ofDigits ds = n ∧
      ∀ m : Numeral, m.part = .whole → m.whole = [d] →
        ∀ rest, m.finish? (cs ++ rest) = Numeral.finish? { m with whole := ds } rest := by
  induction n using Nat.base_induction 10 (by decide) with
  | single k hk =>
    refine ⟨k.digitChar, [], k, [k], Nat.toDigits_of_lt_base hk, digit?_digitChar k hk, by omega,
      by simp [ofDigits], fun m _ hwhole rest => ?_⟩
    rw [List.nil_append, ← hwhole]
  | digit n k hk hpos ih =>
    obtain ⟨c, cs, d, ds, hdigits, hc, hd, hds, hrun⟩ := ih hpos
    have hmore : digits (10 * n + k) = c :: (cs ++ [k.digitChar]) := by
      rw [digits] at hdigits ⊢
      rw [← Nat.toDigits_append_toDigits (by decide) hpos hk, Nat.toDigits_of_lt_base hk, hdigits,
        List.cons_append]
    refine ⟨c, cs ++ [k.digitChar], d, k :: ds, hmore, hc, hd, by rw [ofDigits, hds]; omega,
      fun m hpart hwhole rest => ?_⟩
    rw [List.append_assoc, hrun m hpart hwhole, List.singleton_append, Numeral.finish?]
    simp [Numeral.step, hpart, digit?_digitChar k hk]

/-- The number of a numeral that has a whole part only. -/
theorem value?_whole (negative : Bool) (ds : List Nat) (w : Whole) (part : Part)
    (hval : w.val = if negative then -(ofDigits ds : Int) else ofDigits ds)
    (hzero : negative = true → ofDigits ds ≠ 0) :
    Numeral.value? { part, negative, whole := ds } = some (.whole w) := by
  have hof : Number.ofInt? w.val = some (.whole w) := by
    rw [Number.ofInt?, dif_pos ⟨w.lower, w.upper⟩]
  have hsign : (negative && ofDigits ds == 0) = false := by
    cases negative
    · rfl
    · simpa using hzero rfl
  simp [Numeral.value?, hsign, ← hval, hof]

/-- **Whole numbers are read as they are written.** -/
theorem ofText?_renderInt (w : Whole) : Number.ofText? (renderInt w.val) = some (.whole w) := by
  rcases Nat.eq_zero_or_pos w.val.natAbs with hzero | hpos
  · have hval : w.val = 0 := Int.natAbs_eq_zero.1 hzero
    rw [hval]
    exact value?_whole false [0] w .zero hval (by simp)
  · obtain ⟨c, cs, d, ds, hdigits, hc, hd, hds, hrun⟩ := exists_digits hpos
    rw [renderInt, hdigits]
    split
    · next hneg =>
      have hfirst : Number.ofText? ('-' :: c :: cs) =
          Numeral.finish? { part := .whole, negative := true, whole := [d] } (cs ++ []) := by
        obtain ⟨d, rfl⟩ := Nat.exists_eq_succ_of_ne_zero hd
        simp [Number.ofText?, Numeral.start?, Numeral.finish?, Numeral.step, hc]
      rw [hfirst, hrun _ rfl rfl]
      exact value?_whole true ds w .whole (by rw [hds, if_pos rfl]; omega) fun _ => by omega
    · next hpos =>
      have hfirst : Number.ofText? (c :: cs) =
          Numeral.finish? { part := .whole, whole := [d] } (cs ++ []) := by
        have hsign : c ≠ '-' := by rintro rfl; simp [digit?] at hc
        obtain ⟨d, rfl⟩ := Nat.exists_eq_succ_of_ne_zero hd
        simp [Number.ofText?, Numeral.start?, hsign, hc]
      rw [hfirst, hrun _ rfl rfl]
      exact value?_whole false ds w .whole (by rw [hds, if_neg (by simp)]; omega) (by simp)

/-! ### The characters of a whole number -/

/-- Behind its first character, which may be a sign, a whole number has digits only. -/
theorem exists_renderInt (n : Int) :
    ∃ c cs, renderInt n = c :: cs ∧ (c = '-' ∨ c.isDigit = true) ∧ ∀ d ∈ cs, d.isDigit = true := by
  have hdigits : ∀ c ∈ digits n.natAbs, c.isDigit = true := fun c hc =>
    Nat.isDigit_of_mem_toDigits (by decide) (by decide) hc
  rw [renderInt]
  split
  · exact ⟨'-', _, rfl, .inl rfl, hdigits⟩
  · cases hcs : digits n.natAbs with
    | nil => exact absurd hcs Nat.toDigits_ne_nil
    | cons c cs =>
      rw [hcs] at hdigits
      exact ⟨c, cs, rfl, .inr (hdigits c (by simp)), fun d hd => hdigits d (by simp [hd])⟩

end AgentSurface.Json
