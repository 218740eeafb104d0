import AgentSurface.Proofs.Jsx.Spelling

/-!
# Jsx — text between elements

What comes of the characters between two elements has single spaces and no other blanks, whether it
is put together from their words or squeezed.

* `normalize_text`: a text in the sense of the grammar is its own text node.
* `normalize_layout`: layout has none.
* `isText_of_normalize`: a text node is a text in the sense of the grammar.
-/

namespace AgentSurface

namespace Text

/-- Blanks have no words. -/
theorem words_of_blank {s : List Char} (h : ∀ c ∈ s, isBlank c = true) : words s = [] := by
  unfold words
  induction s with
  | nil => rfl
  | cons c rest ih =>
    rw [wordsFrom, if_pos (h c (by simp))]
    exact ih fun d hd => h d (by simp [hd])

/-- Single spaces are left as they are; `inRun` says that a space stands before the text. -/
theorem squeezeFrom_of_single {s : List Char} (hblank : ∀ c ∈ s, isBlank c = true → c = ' ')
    (hsingle : ¬ [' ', ' '] <:+: s) {inRun : Bool} (hrun : inRun = true → s.head? ≠ some ' ') :
    squeezeFrom inRun s = s := by
  induction s generalizing inRun with
  | nil => rfl
  | cons c rest ih =>
    have hrest : ∀ {inRun}, (inRun = true → rest.head? ≠ some ' ') →
        squeezeFrom inRun rest = rest := fun hrun =>
      ih (fun d hd => hblank d (by simp [hd]))
        (fun hpair => hsingle (hpair.trans (List.suffix_cons c rest).isInfix)) hrun
    rw [squeezeFrom]
    split
    · next hc =>
      obtain rfl := hblank c (by simp) hc
      have hno : ¬ inRun = true := fun h => hrun h rfl
      rw [if_neg hno, hrest fun _ hhead => ?_]
      obtain ⟨tail, rfl⟩ := List.head?_eq_some_iff.1 hhead
      exact hsingle ⟨[], tail, rfl⟩
    · rw [hrest (by simp)]

/-- Behind a space there is no other one. -/
theorem single_squeezeFrom (s : List Char) (inRun : Bool) :
    (inRun = true → (squeezeFrom inRun s).head? ≠ some ' ') ∧
      ¬ [' ', ' '] <:+: squeezeFrom inRun s := by
  induction s generalizing inRun with
  | nil => simp [squeezeFrom]
  | cons c rest ih =>
    rw [squeezeFrom]
    split
    · cases inRun with
      | true => exact ih true
      | false =>
        obtain ⟨hhead, hsingle⟩ := ih true
        refine ⟨nofun, fun hpair => ?_⟩
        rcases List.infix_cons_iff.1 hpair with hprefix | hlater
        · obtain ⟨-, tail, htail⟩ := List.cons_prefix_cons.1 hprefix
          exact hhead rfl (by rw [← htail]; rfl)
        · exact hsingle hlater
    · next hc =>
      have hne : c ≠ ' ' := by rintro rfl; exact hc rfl
      refine ⟨fun _ => by simpa using hne, fun hpair => ?_⟩
      rcases List.infix_cons_iff.1 hpair with hprefix | hlater
      · exact hne (List.cons_prefix_cons.1 hprefix).1.symm
      · exact (ih false).2 hlater

/-- Squeezing adds spaces only, and keeps no other blank. -/
theorem mem_squeezeFrom {s : List Char} {inRun : Bool} {c : Char} (h : c ∈ squeezeFrom inRun s) :
    c = ' ' ∨ c ∈ s ∧ isBlank c = false := by
  induction s generalizing inRun with
  | nil => exact absurd h List.not_mem_nil
  | cons d rest ih =>
    have hrest : ∀ {inRun}, c ∈ squeezeFrom inRun rest →
        c = ' ' ∨ c ∈ d :: rest ∧ isBlank c = false := fun h =>
      (ih h).imp_right fun ⟨hmem, hblank⟩ => ⟨List.mem_cons_of_mem d hmem, hblank⟩
    rw [squeezeFrom] at h
    split at h
    · split at h
      · exact hrest h
      · exact (List.mem_cons.1 h).elim .inl hrest
    · next hd =>
      rcases List.mem_cons.1 h with rfl | h
      · exact .inr ⟨List.mem_cons_self, by simpa using hd⟩
      · exact hrest h

/-! ### Words, one space apart -/

/-- A word has a character, and no blank. -/
def IsWord (w : List Char) : Prop := w ≠ [] ∧ ∀ c ∈ w, isBlank c = false

/-- Words have the characters of the text, without its blanks. -/
theorem mem_wordsFrom {word s w : List Char} (hword : ∀ c ∈ word, isBlank c = false)
    (h : w ∈ wordsFrom word s) : IsWord w ∧ ∀ c ∈ w, c ∈ word ∨ c ∈ s := by
  induction s generalizing word with
  | nil =>
    rw [wordsFrom] at h
    split at h
    · exact absurd h List.not_mem_nil
    · next hne =>
      rw [List.mem_singleton.1 h]
      exact ⟨⟨by simpa using hne, by simpa using hword⟩, fun c hc => .inl (by simpa using hc)⟩
  | cons d rest ih =>
    have hnone : ∀ c ∈ ([] : List Char), isBlank c = false := List.forall_mem_nil _
    have hlater : w ∈ wordsFrom [] rest → IsWord w ∧ ∀ c ∈ w, c ∈ word ∨ c ∈ d :: rest := by
      intro h
      obtain ⟨hw, hmem⟩ := ih hnone h
      exact ⟨hw, fun c hc => .inr (List.mem_cons_of_mem d ((hmem c hc).resolve_left
        List.not_mem_nil))⟩
    rw [wordsFrom] at h
    split at h
    · split at h
      · exact hlater h
      · next hne =>
        rcases List.mem_cons.1 h with rfl | h
        · exact ⟨⟨by simpa using hne, by simpa using hword⟩, fun c hc => .inl (by simpa using hc)⟩
        · exact hlater h
    · next hd =>
      obtain ⟨hw, hmem⟩ := ih (List.forall_mem_cons.2 ⟨by simpa using hd, hword⟩) h
      refine ⟨hw, fun c hc => ?_⟩
      rcases hmem c hc with hc | hc
      · exact (List.mem_cons.1 hc).elim (fun h => .inr (h ▸ List.mem_cons_self)) .inl
      · exact .inr (List.mem_cons_of_mem d hc)

/-- Every word of a text is a word, of characters of the text. -/
theorem mem_words {s w : List Char} (h : w ∈ words s) : IsWord w ∧ ∀ c ∈ w, c ∈ s := by
  obtain ⟨hw, hmem⟩ := mem_wordsFrom (List.forall_mem_nil _) h
  exact ⟨hw, fun c hc => (hmem c hc).resolve_left List.not_mem_nil⟩

/-- Joined words have the characters of the words, and spaces. -/
theorem mem_unwords {ws : List (List Char)} {c : Char} (h : c ∈ unwords ws) :
    c = ' ' ∨ ∃ w ∈ ws, c ∈ w := by
  induction ws using unwords.induct with
  | case1 => exact absurd h List.not_mem_nil
  | case2 w => exact .inr ⟨w, List.mem_cons_self, h⟩
  | case3 w ws hws ih =>
    rw [unwords.eq_3 w ws hws, List.mem_append, List.mem_cons] at h
    rcases h with h | rfl | h
    · exact .inr ⟨w, List.mem_cons_self, h⟩
    · exact .inl rfl
    · exact (ih h).imp_right fun ⟨w', hw', hc⟩ => ⟨w', List.mem_cons_of_mem w hw', hc⟩

/-- A word is left as it is, and behind it a run of blanks begins anew. -/
theorem squeezeFrom_word {w : List Char} (hw : IsWord w) (inRun : Bool) (rest : List Char) :
    squeezeFrom inRun (w ++ rest) = w ++ squeezeFrom false rest := by
  obtain ⟨hne, hblank⟩ := hw
  induction w generalizing inRun with
  | nil => exact absurd rfl hne
  | cons c w ih =>
    have hc : ¬ isBlank c = true := by rw [hblank c List.mem_cons_self]; exact Bool.false_ne_true
    rw [List.cons_append, squeezeFrom, if_neg hc]
    cases w with
    | nil => rfl
    | cons d w =>
      rw [ih false (List.cons_ne_nil d w) fun e he => hblank e (List.mem_cons_of_mem c he)]
      rfl

/-- In joined words there is nothing to squeeze. -/
theorem squeezeFrom_unwords {ws : List (List Char)} (h : ∀ w ∈ ws, IsWord w) (inRun : Bool) :
    squeezeFrom inRun (unwords ws) = unwords ws := by
  induction ws using unwords.induct generalizing inRun with
  | case1 => rfl
  | case2 w => simpa [unwords, squeezeFrom] using squeezeFrom_word (h w List.mem_cons_self) inRun []
  | case3 w ws hws ih =>
    have hspace :
        squeezeFrom false (' ' :: unwords ws) = ' ' :: squeezeFrom true (unwords ws) := rfl
    rw [unwords.eq_3 w ws hws, squeezeFrom_word (h w List.mem_cons_self), hspace,
      ih fun w' hw' => h w' (List.mem_cons_of_mem w hw')]

end Text

namespace Jsx

open Text (isBlank)

/-- A text that can be written comes back as it is. -/
theorem normalize_text {atTop : Bool} {text : List Char} (h : IsText atTop text) :
    normalize text atTop = some (String.ofList text) := by
  have hfeed : '\n' ∉ text := fun hmem => absurd (h.blank '\n' hmem rfl) (by decide)
  have htop : (atTop && text.all isBlank) = false := by
    cases atTop with
    | false => rfl
    | true =>
      obtain ⟨c, hc, hblank⟩ := h.top rfl
      simpa using ⟨c, hc, hblank⟩
  have hsqueeze : Text.squeeze text = text :=
    Text.squeezeFrom_of_single h.blank h.single (by simp)
  simp [normalize, hfeed, htop, hsqueeze, h.nonempty]

/-- Blanks with a line break are layout and no text, and so are all blanks at the top. -/
theorem normalize_layout {b : List Char} (hb : Blanks b) {atTop : Bool}
    (h : '\n' ∈ b ∨ atTop = true) : normalize b atTop = none := by
  by_cases hfeed : '\n' ∈ b
  · simp [normalize, hfeed, Text.words_of_blank hb, Text.unwords]
  · obtain rfl : atTop = true := h.resolve_left hfeed
    have hall : b.all isBlank = true := List.all_eq_true.2 hb
    simp [normalize, hfeed, hall]

/-- Squeezed characters, or words one space apart, are a text if there are any. -/
theorem isText_of_squeezed {raw text : List Char} (hne : text ≠ [])
    (hmem : ∀ c ∈ text, c = ' ' ∨ c ∈ raw ∧ isBlank c = false)
    (hfixed : Text.squeeze text = text) (hangle : '<' ∉ raw) (hbrace : '{' ∉ raw) :
    IsText false text where
  nonempty := hne
  chars := ⟨fun h => (hmem _ h).elim (by decide) fun h => hangle h.1,
    fun h => (hmem _ h).elim (by decide) fun h => hbrace h.1⟩
  blank := fun c hc hblank => (hmem c hc).resolve_right fun h => by simp [h.2] at hblank
  single := by
    rw [← hfixed]
    exact (Text.single_squeezeFrom text false).2
  top := nofun

/-- **A text node is a text in the sense of the grammar.** -/
theorem isText_of_normalize {raw : List Char} {atTop : Bool} {text : String}
    (h : normalize raw atTop = some text) (hangle : '<' ∉ raw) (hbrace : '{' ∉ raw) :
    IsText false text.toList := by
  obtain ⟨chars, hchars⟩ : ∃ chars, chars =
      if raw.contains '\n' then Text.unwords (Text.words raw)
      else if atTop && raw.all isBlank then [] else Text.squeeze raw := ⟨_, rfl⟩
  have hsome : (if chars.isEmpty then none else some (String.ofList chars)) = some text := by
    rw [hchars]
    exact h
  split at hsome
  · cases hsome
  · next hne =>
    obtain rfl := Option.some.inj hsome
    rw [List.isEmpty_iff] at hne
    rw [String.toList_ofList]
    split at hchars
    · subst hchars
      have hwords : ∀ w ∈ Text.words raw, Text.IsWord w := fun w hw => (Text.mem_words hw).1
      refine isText_of_squeezed hne (fun c hc => ?_) (Text.squeezeFrom_unwords hwords false) hangle
        hbrace
      refine (Text.mem_unwords hc).imp_right fun ⟨w, hw, hcw⟩ => ?_
      exact ⟨(Text.mem_words hw).2 c hcw, (hwords w hw).2 c hcw⟩
    · split at hchars
      · exact absurd hchars hne
      · subst hchars
        have hmem : ∀ c ∈ Text.squeeze raw, c = ' ' ∨ c ∈ raw ∧ isBlank c = false := fun c =>
          Text.mem_squeezeFrom
        refine isText_of_squeezed hne hmem ?_ hangle hbrace
        refine Text.squeezeFrom_of_single (fun c hc hblank => ?_)
          (Text.single_squeezeFrom raw false).2 nofun
        exact (hmem c hc).resolve_right fun h => by simp [h.2] at hblank

end Jsx
end AgentSurface
