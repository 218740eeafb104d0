import AgentSurface.Jsx.Reader

/-!
# Jsx — classes of characters

What a reader does with a character depends on the classes that it belongs to.  All characters of
names, paths and numbers are visible ones of the ASCII range, so none of them is a blank; `Delimits`
are the characters that end a number or a word, `BeginsLiteral` those that begin a literal.
-/

namespace AgentSurface.Jsx

open Text (isBlank)

/-- Characters of which a class has one and not the other are different. -/
theorem ne_of_class {p : Char → Bool} {c d : Char} (hc : p c = true) (hd : p d = false) :
    c ≠ d := by
  rintro rfl
  exact Bool.false_ne_true (hd.symm.trans hc)

/-! ### Visible characters -/

/-- The visible characters of the ASCII range. -/
def IsVisible (c : Char) : Prop := 33 ≤ c.toNat ∧ c.toNat ≤ 126

/-- Every blank has a code below or above the visible characters of ASCII. -/
theorem IsVisible.not_isBlank {c : Char} (h : IsVisible c) : isBlank c = false := by
  obtain ⟨hlow, hhigh⟩ := h
  rw [← Bool.not_eq_true]
  intro hblank
  simp only [isBlank, Bool.or_eq_true, Bool.and_eq_true, decide_eq_true_eq, beq_iff_eq] at hblank
  omega

/-- A blank belongs to no class of visible characters. -/
theorem not_of_isBlank {p : Char → Bool} (hp : ∀ {c}, p c = true → IsVisible c) {c : Char}
    (h : isBlank c = true) : p c = false := by
  rw [← Bool.not_eq_true]
  intro hc
  exact Bool.false_ne_true ((hp hc).not_isBlank.symm.trans h)

/-- The codes of letters, small and great. -/
theorem isAlpha_toNat {c : Char} (h : c.isAlpha = true) :
    (65 ≤ c.toNat ∧ c.toNat ≤ 90) ∨ (97 ≤ c.toNat ∧ c.toNat ≤ 122) := by
  change (decide ('A'.val ≤ c.val ∧ c.val ≤ 'Z'.val) || ('a'.val ≤ c.val && c.val ≤ 'z'.val)) =
    true at h
  simp only [Bool.or_eq_true, Bool.and_eq_true, decide_eq_true_eq, UInt32.le_iff_toNat_le] at h
  exact h

/-- The codes of digits. -/
theorem isDigit_toNat {c : Char} (h : c.isDigit = true) : 48 ≤ c.toNat ∧ c.toNat ≤ 57 :=
  Char.isDigit_iff_toNat.1 h

theorem isVisible_of_isDigit {c : Char} (h : c.isDigit = true) : IsVisible c := by
  obtain ⟨hlow, hhigh⟩ := isDigit_toNat h
  exact ⟨by omega, by omega⟩

theorem isVisible_of_isAlpha {c : Char} (h : c.isAlpha = true) : IsVisible c := by
  rcases isAlpha_toNat h with ⟨hlow, hhigh⟩ | ⟨hlow, hhigh⟩
  · exact ⟨by omega, by omega⟩
  · exact ⟨by omega, by omega⟩

theorem isVisible_of_isQuote {c : Char} (h : isQuote c = true) : IsVisible c := by
  simp only [isQuote, Bool.or_eq_true, beq_iff_eq] at h
  rcases h with rfl | rfl
  all_goals exact ⟨by decide, by decide⟩

/-- A character that may begin an identifier is visible, the underscore and the dollar included. -/
theorem isVisible_of_isIdentStart {c : Char} (h : isIdentStart c = true) : IsVisible c := by
  simp only [isIdentStart, Bool.or_eq_true, beq_iff_eq] at h
  rcases h with (h | rfl) | rfl
  · exact isVisible_of_isAlpha h
  all_goals exact ⟨by decide, by decide⟩

/-- The characters of numbers are visible: digits, points, signs and exponents. -/
theorem isVisible_of_isNumeral {c : Char} (h : isNumeral c = true) : IsVisible c := by
  simp only [isNumeral, Bool.or_eq_true, beq_iff_eq] at h
  rcases h with ((((h | rfl) | rfl) | rfl) | rfl) | rfl
  · exact isVisible_of_isDigit h
  all_goals exact ⟨by decide, by decide⟩

/-- The characters of a name of an element or attribute are visible, with those that may not begin
it. -/
theorem isVisible_of_isNameRest {c : Char} (h : isNameRest c = true) : IsVisible c := by
  simp only [isNameRest, Char.isAlphanum, Bool.or_eq_true, beq_iff_eq] at h
  rcases h with ((((h | h) | rfl) | rfl) | rfl) | rfl
  · exact isVisible_of_isAlpha h
  · exact isVisible_of_isDigit h
  all_goals exact ⟨by decide, by decide⟩

theorem isVisible_of_isNameStart {c : Char} (h : isNameStart c = true) : IsVisible c := by
  simp only [isNameStart, Bool.or_eq_true, beq_iff_eq] at h
  rcases h with h | rfl
  · exact isVisible_of_isAlpha h
  · exact ⟨by decide, by decide⟩

/-! ### The beginning and the end of a literal -/

/-- The first characters of literals. -/
def BeginsLiteral (c : Char) : Prop :=
  isQuote c = true ∨ c = '[' ∨ c = '{' ∨ c = '-' ∨ c.isDigit = true ∨ isIdentStart c = true

/-- Blanks are skipped before a literal and never begin it. -/
theorem BeginsLiteral.not_isBlank {c : Char} (h : BeginsLiteral c) : isBlank c = false := by
  rcases h with h | rfl | rfl | rfl | h | h
  · exact (isVisible_of_isQuote h).not_isBlank
  · rfl
  · rfl
  · rfl
  · exact (isVisible_of_isDigit h).not_isBlank
  · exact (isVisible_of_isIdentStart h).not_isBlank

/-- A character that begins a literal is none that does not. -/
theorem BeginsLiteral.ne {c d : Char} (h : BeginsLiteral c) (hd : ¬ BeginsLiteral d) : c ≠ d := by
  rintro rfl
  exact hd h

/-- A class that has neither quote is decided by these two characters. -/
theorem not_isQuote {p : Char → Bool} (hdouble : p '"' = false) (hsingle : p '\'' = false)
    {c : Char} (h : p c = true) : isQuote c = false := by
  have hne : c ≠ '"' := ne_of_class h hdouble
  have hne' : c ≠ '\'' := ne_of_class h hsingle
  simp [isQuote, hne, hne']

/-- No identifier begins with a digit, so words and numbers are told apart by their first character.
-/
theorem not_isDigit_of_isIdentStart {c : Char} (h : isIdentStart c = true) : c.isDigit = false := by
  rw [← Bool.not_eq_true]
  intro hdigit
  obtain ⟨hlow, hhigh⟩ := isDigit_toNat hdigit
  simp only [isIdentStart, Bool.or_eq_true, beq_iff_eq] at h
  rcases h with (h | rfl) | rfl
  · rcases isAlpha_toNat h with ⟨_, _⟩ | ⟨_, _⟩ <;> omega
  · exact absurd hdigit (by decide)
  · exact absurd hdigit (by decide)

/-- The characters behind which a number or a word is over. -/
def Delimits (c : Char) : Prop := isBlank c = true ∨ c = ',' ∨ c = ']' ∨ c = '}' ∨ c = ':'

/-- What ends a word begins none. -/
theorem Delimits.not_isIdentStart {c : Char} (h : Delimits c) : isIdentStart c = false := by
  rcases h with h | rfl | rfl | rfl | rfl
  · exact not_of_isBlank isVisible_of_isIdentStart h
  all_goals rfl

/-- What ends a number can not go on with it. -/
theorem Delimits.not_isNumeral {c : Char} (h : Delimits c) : isNumeral c = false := by
  rcases h with h | rfl | rfl | rfl | rfl
  · exact not_of_isBlank isVisible_of_isNumeral h
  all_goals rfl

/-- Behind a path, what ends a literal neither goes on with a name nor begins a segment. -/
theorem Delimits.endsPath {c : Char} (h : Delimits c) :
    isIdentStart c = false ∧ c.isDigit = false ∧ c ≠ '.' := by
  have hnumeral := h.not_isNumeral
  simp only [isNumeral, Bool.or_eq_false_iff, beq_eq_false_iff_ne] at hnumeral
  obtain ⟨⟨⟨⟨⟨hdigit, -⟩, -⟩, hdot⟩, -⟩, -⟩ := hnumeral
  exact ⟨h.not_isIdentStart, hdigit, hdot⟩

end AgentSurface.Jsx
