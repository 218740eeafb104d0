import AgentSurface.Text.Blank
import AgentSurface.Text.Lowercase

/-!
# Text — lower case and what stands around

The case of ASCII letters does not matter for the lower case of a text, neither in the text nor as
what stands around a capital sigma (`lower_map_toLower`).  The capital sigma is the one character
whose lower case depends on its surroundings.  So a part of a text has the same lower case in the
text as alone, if each of its capital sigmas has the same form in both (`KeepsSigmas`).

* `lowercase_of_sameTag`: texts that differ in the case of ASCII letters have one lower case.
* `lower_isInfix`: the lower case of such a part is a part of the lower case.
-/

namespace AgentSurface.Text

/-! ### Letters of the ASCII range -/

/-- Beyond ASCII the plain lowering changes nothing. -/
theorem toLower_of_le {c : Char} (h : 128 ≤ c.toNat) : c.toLower = c := by
  refine dif_neg ?_
  rintro ⟨-, hle⟩
  have hcapital : c.toNat ≤ 90 := UInt32.le_iff_toNat_le.1 hle
  omega

/-- Only characters of the ASCII range can be told from their lower case there. -/
theorem forall_of_ascii {p : Char → Prop} (hascii : ∀ n < 128, p (Char.ofNat n))
    (hother : ∀ c : Char, c.toLower = c → p c) (c : Char) : p c := by
  rcases Nat.lt_or_ge c.toNat 128 with hlt | hle
  · rw [← Char.ofNat_toNat c]
    exact hascii c.toNat hlt
  · exact hother c (toLower_of_le hle)

theorem isCased_toLower (c : Char) : isCased c.toLower = isCased c :=
  forall_of_ascii (p := fun c => isCased c.toLower = isCased c) (by decide)
    (fun _ h => congrArg isCased h) c

theorem isCaseIgnorable_toLower (c : Char) : isCaseIgnorable c.toLower = isCaseIgnorable c :=
  forall_of_ascii (p := fun c => isCaseIgnorable c.toLower = isCaseIgnorable c) (by decide)
    (fun _ h => congrArg isCaseIgnorable h) c

theorem lowerChar_toLower (c : Char) : lowerChar c.toLower = lowerChar c :=
  forall_of_ascii (p := fun c => lowerChar c.toLower = lowerChar c) (by decide)
    (fun _ h => congrArg lowerChar h) c

theorem toLower_eq_sigma_iff (c : Char) : c.toLower = '\u03A3' ↔ c = '\u03A3' :=
  forall_of_ascii (p := fun c => c.toLower = '\u03A3' ↔ c = '\u03A3') (by decide)
    (fun _ h => by rw [h]) c

/-- Whether a cased letter follows does not depend on case. -/
theorem meetsCased_map_toLower (s : List Char) : meetsCased (s.map Char.toLower) = meetsCased s := by
  have hskip : isCaseIgnorable ∘ Char.toLower = isCaseIgnorable := funext isCaseIgnorable_toLower
  unfold meetsCased
  rw [List.dropWhile_map, hskip]
  cases s.dropWhile isCaseIgnorable with
  | nil => rfl
  | cons c rest => exact isCased_toLower c

theorem lowerFrom_map_toLower (before s : List Char) :
    lowerFrom (before.map Char.toLower) (s.map Char.toLower) = lowerFrom before s := by
  induction s generalizing before with
  | nil => rfl
  | cons c rest ih =>
    have hrest := ih (c :: before)
    rw [List.map_cons] at hrest
    rw [List.map_cons, lowerFrom, lowerFrom, hrest, lowerChar_toLower, lowerSigma, lowerSigma,
      meetsCased_map_toLower, meetsCased_map_toLower]
    simp only [toLower_eq_sigma_iff]

/-- **The lower case of a text does not depend on the case of its ASCII letters.** -/
theorem lower_map_toLower (s : List Char) : lower (s.map Char.toLower) = lower s :=
  lowerFrom_map_toLower [] s

/-- Tags that are the same but for ASCII case have the same lower case. -/
theorem lower_of_sameTag {a b : String} (h : sameTag a b = true) :
    lower a.toList = lower b.toList := by
  rw [← lower_map_toLower, beq_iff_eq.1 h, lower_map_toLower]

theorem lowercase_of_sameTag {a b : String} (h : sameTag a b = true) : lowercase a = lowercase b :=
  congrArg String.ofList (lower_of_sameTag h)

/-! ### A part of a text -/

/-- The lower case of a text between `before`, the nearest first, and `after`. -/
def lowerAmid (before after : List Char) : List Char → List Char
  | [] => []
  | c :: rest =>
    (if c = '\u03A3' then [lowerSigma before (rest ++ after)] else lowerChar c) ++
      lowerAmid (c :: before) after rest

theorem lowerAmid_nil (before s : List Char) : lowerAmid before [] s = lowerFrom before s := by
  induction s generalizing before with
  | nil => rfl
  | cons c rest ih => rw [lowerAmid, lowerFrom, ih, List.append_nil]

/-- A joined text is lowered piece by piece, each piece amid its neighbours. -/
theorem lowerFrom_append (before s t : List Char) :
    lowerFrom before (s ++ t) = lowerAmid before t s ++ lowerFrom (s.reverse ++ before) t := by
  induction s generalizing before with
  | nil => rfl
  | cons c rest ih =>
    rw [List.cons_append, lowerFrom, lowerAmid, ih, List.append_assoc, List.reverse_cons,
      List.append_assoc, List.singleton_append]

/-- The form of a capital sigma at the place `i` of `s`, where `before`, the nearest first, and
`after` stand around `s`. -/
def sigmaAt (before after s : List Char) (i : Nat) : Char :=
  lowerSigma ((s.take i).reverse ++ before) (s.drop (i + 1) ++ after)

/-- Surroundings in which the capital sigmas have the same forms give the same lower case. -/
theorem lowerAmid_congr {before before' after after' s : List Char}
    (h : ∀ i < s.length, s[i]? = some '\u03A3' →
      sigmaAt before after s i = sigmaAt before' after' s i) :
    lowerAmid before after s = lowerAmid before' after' s := by
  induction s generalizing before before' with
  | nil => rfl
  | cons c rest ih =>
    have hrest : lowerAmid (c :: before) after rest = lowerAmid (c :: before') after' rest := by
      refine ih fun i hi hsigma => ?_
      simpa [sigmaAt] using h (i + 1) (Nat.succ_lt_succ hi) (by simpa using hsigma)
    rw [lowerAmid, lowerAmid, hrest]
    split
    · next hc =>
      have hfirst := h 0 (Nat.succ_pos _) (by rw [hc]; rfl)
      exact congrArg (fun d => [d] ++ _) hfirst
    · rfl

/-- Each capital sigma of a part has the same lower case in the text as in the part alone. -/
def KeepsSigmas (before part after : List Char) : Prop :=
  ∀ i < part.length, part[i]? = some '\u03A3' →
    sigmaAt before.reverse after part i = sigmaAt [] [] part i

instance (before part after : List Char) : Decidable (KeepsSigmas before part after) :=
  inferInstanceAs (Decidable (∀ i < part.length, part[i]? = some '\u03A3' →
    sigmaAt before.reverse after part i = sigmaAt [] [] part i))

/-- **The lower case of a part is a part of the lower case.** -/
theorem lower_isInfix {before part after : List Char} (h : KeepsSigmas before part after) :
    lower part <:+: lower (before ++ part ++ after) := by
  have hpart : lowerAmid before.reverse after part = lower part := by
    rw [lower, ← lowerAmid_nil]
    exact lowerAmid_congr h
  show _ <:+: lowerFrom [] (before ++ part ++ after)
  rw [List.append_assoc, lowerFrom_append, lowerFrom_append, List.append_nil, hpart,
    ← List.append_assoc]
  exact List.infix_append _ _ _

end AgentSurface.Text
