import AgentSurface.Proofs.Text.Encoding

/-!
# Text — bytes that may be no text

`Lossy` reads bytes without a decoder, as the Unicode standard recommends: where a character's bytes
stand they are the character, and where none stand the longest beginning of one is given up, or a
single byte if there is none.  Each part that is given up is one replacement character.

* `Lossy.unique`: bytes are read in one way.
* `Decoder.advance_step`, `Taken.advance`: what a byte does to a decoder, and what it keeps of the
  bytes that have come.
* `decodes_in_pieces`: bytes that are decoded in pieces are read so, wherever they are cut.
-/

namespace AgentSurface.Text.Utf8

/-! ### Reading bytes that may be no text -/

/-- The bytes that are given up together where no character's bytes stand: the longest unfinished
beginning of one or, if there is none, one byte. -/
structure GivenUp (part rest : List UInt8) : Prop where
  noCharacter : ∀ c, ¬ String.utf8EncodeChar c <+: part ++ rest
  isPart : Unfinished part ∨ part.length = 1
  longest : ∀ p, p <+: part ++ rest → Unfinished p → p.length ≤ part.length

/-- What bytes are read as. -/
inductive Lossy : List UInt8 → List Char → Prop where
  | done : Lossy [] []
  | character {c : Char} {rest : List UInt8} {text : List Char} (h : Lossy rest text) :
    Lossy (String.utf8EncodeChar c ++ rest) (c :: text)
  | givenUp {part rest : List UInt8} {text : List Char} (hpart : GivenUp part rest)
    (h : Lossy rest text) : Lossy (part ++ rest) (replacement :: text)

theorem GivenUp.pos {part rest : List UInt8} (h : GivenUp part rest) : 0 < part.length := by
  rcases h.isPart with hpart | hpart
  · exact List.length_pos_iff.2 hpart.1
  · omega

/-- Of one text, no run that is given up is longer than another. -/
theorem GivenUp.length_le {part rest part' rest' : List UInt8} (h : GivenUp part rest)
    (h' : GivenUp part' rest') (heq : part ++ rest = part' ++ rest') :
    part.length ≤ part'.length := by
  rcases h.isPart with hpart | hpart
  · exact h'.longest part (heq ▸ List.prefix_append part rest) hpart
  · rw [hpart]
    exact h'.pos

/-- **Bytes are read in one way.** -/
theorem Lossy.unique {bytes : List UInt8} {text text' : List Char} (h : Lossy bytes text)
    (h' : Lossy bytes text') : text = text' := by
  induction h generalizing text' with
  | done =>
    generalize hbytes : ([] : List UInt8) = bytes at h'
    cases h' with
    | done => rfl
    | character =>
      exact absurd (List.append_eq_nil_iff.1 hbytes.symm).1 String.utf8EncodeChar_ne_nil
    | givenUp hpart =>
      have hpos := hpart.pos
      simp [(List.append_eq_nil_iff.1 hbytes.symm).1] at hpos
  | @character c rest text _ ih =>
    generalize hbytes : String.utf8EncodeChar c ++ rest = bytes at h'
    cases h' with
    | done => exact absurd (List.append_eq_nil_iff.1 hbytes).1 String.utf8EncodeChar_ne_nil
    | @character d rest' text' h' =>
      obtain ⟨rfl, rfl⟩ : c = d ∧ rest = rest' := by
        rcases List.append_eq_append_iff.1 hbytes with ⟨x, hx, hrest⟩ | ⟨x, hx, hrest⟩
        · obtain ⟨rfl, rfl⟩ := eq_of_encode_append hx.symm
          exact ⟨rfl, hrest⟩
        · obtain ⟨rfl, rfl⟩ := eq_of_encode_append hx.symm
          exact ⟨rfl, hrest.symm⟩
      rw [ih h']
    | givenUp hpart => exact absurd ⟨rest, hbytes⟩ (hpart.noCharacter c)
  | @givenUp part rest text hpart _ ih =>
    generalize hbytes : part ++ rest = bytes at h'
    cases h' with
    | done =>
      have hpos := hpart.pos
      simp [(List.append_eq_nil_iff.1 hbytes).1] at hpos
    | @character d rest' text' h' => exact absurd ⟨rest', hbytes.symm⟩ (hpart.noCharacter d)
    | @givenUp part' rest' text' hpart' h' =>
      have hlen : part.length = part'.length :=
        Nat.le_antisymm (hpart.length_le hpart' hbytes) (hpart'.length_le hpart hbytes.symm)
      obtain ⟨rfl, rfl⟩ := List.append_inj hbytes hlen
      rw [ih h']

/-! ### One byte more -/

/-- What a byte does behind the bytes that are held back: the text that it settles, and the bytes
that are held back then. -/
inductive Advance : List UInt8 → UInt8 → List Char → List UInt8 → Prop where
  | complete {held : List UInt8} {b : UInt8} {c : Char}
    (h : held ++ [b] = String.utf8EncodeChar c) : Advance held b [c] []
  | more {held : List UInt8} {b : UInt8} (h : Unfinished (held ++ [b])) :
    Advance held b [] (held ++ [b])
  | lone {b : UInt8} (h : ∀ c, ¬ [b] <+: String.utf8EncodeChar c) : Advance [] b [replacement] []
  /-- The bytes held back are given up, and the byte begins anew. -/
  | anew {held next : List UInt8} {b : UInt8} {text : List Char} (hne : held ≠ [])
    (h : ∀ c, ¬ held ++ [b] <+: String.utf8EncodeChar c) (hnext : Advance [] b text next) :
    Advance held b (replacement :: text) next

/-- A byte with nothing held before it is taken as the relation says. -/
theorem Decoder.advance_start (b : UInt8) :
    Advance [] b (Decoder.start "" b).1.toList (Decoder.start "" b).2.held := by
  unfold Decoder.start
  cases hread : read [b] with
  | complete c =>
    have hb : [] ++ [b] = String.utf8EncodeChar c := eq_encode_of_read hread
    simpa using .complete hb
  | partway =>
    have hb : Unfinished ([] ++ [b]) := unfinished_of_read (by simp) hread
    simpa using .more hb
  | broken => simpa using .lone (not_prefix_of_broken hread)

/-- **Every step of the decoder is one of these.** -/
theorem Decoder.advance_step (held : List UInt8) (b : UInt8) :
    Advance held b (Decoder.step "" ⟨held⟩ b).1.toList (Decoder.step "" ⟨held⟩ b).2.held := by
  unfold Decoder.step
  cases held with
  | nil => exact Decoder.advance_start b
  | cons first held =>
    simp only [List.isEmpty_cons, Bool.false_eq_true, if_false]
    cases hread : read (first :: held ++ [b]) with
    | complete c => simpa using .complete (eq_encode_of_read hread)
    | partway => exact .more (unfinished_of_read (by simp) hread)
    | broken =>
      simp only [Decoder.start_eq (String.push "" replacement)]
      simpa using .anew (by simp) (not_prefix_of_broken hread) (Decoder.advance_start b)

/-- What goes on behind the bytes held back goes on with the byte behind them. -/
theorem exists_head_of_prefix (held rest : List UInt8) {p : List UInt8} (h : p <+: held ++ rest)
    (hlen : held.length < p.length) : ∃ b ∈ rest.head?, held ++ [b] <+: p := by
  obtain ⟨more, rfl⟩ := List.prefix_of_prefix_length_le (List.prefix_append held rest) h
    (Nat.le_of_lt hlen)
  cases more with
  | nil => simp at hlen
  | cons b more =>
    obtain ⟨tail, rfl⟩ := (List.prefix_append_right_inj held).1 h
    exact ⟨b, rfl, more, by simp⟩

/-- Bytes are given up where the byte behind them does not go on with them, and at the end. -/
theorem givenUp_of_unfinished {held : List UInt8} (hheld : Unfinished held) {rest : List UInt8}
    (h : ∀ b ∈ rest.head?, ∀ c, ¬ held ++ [b] <+: String.utf8EncodeChar c) :
    GivenUp held rest where
  noCharacter c hc := by
    rcases Nat.lt_or_ge held.length (String.utf8EncodeChar c).length with hlen | hlen
    · obtain ⟨b, hb, hbegin⟩ := exists_head_of_prefix held rest hc hlen
      exact h b hb c hbegin
    · exact hheld.not_encode_prefix c
        (List.prefix_of_prefix_length_le hc (List.prefix_append held rest) hlen)
  isPart := .inl hheld
  longest p hp hunfinished := by
    refine Nat.not_lt.1 fun hlen => ?_
    obtain ⟨b, hb, hbegin⟩ := exists_head_of_prefix held rest hp hlen
    obtain ⟨-, c, tail, -, hc⟩ := hunfinished
    exact h b hb c (hbegin.trans ⟨tail, hc⟩)

theorem givenUp_of_lone {b : UInt8} (h : ∀ c, ¬ [b] <+: String.utf8EncodeChar c)
    (rest : List UInt8) : GivenUp [b] rest where
  noCharacter c hc := by
    obtain ⟨d, hd, hbegin⟩ := exists_head_of_prefix [] (b :: rest) hc
      (List.length_pos_iff.2 String.utf8EncodeChar_ne_nil)
    cases hd
    exact h c hbegin
  isPart := .inr rfl
  longest p hp hunfinished := by
    obtain ⟨d, hd, hbegin⟩ := exists_head_of_prefix [] (b :: rest) hp
      (List.length_pos_iff.2 hunfinished.1)
    cases hd
    obtain ⟨-, c, tail, -, hc⟩ := hunfinished
    exact absurd (hbegin.trans ⟨tail, hc⟩) (h c)

section Advance

variable {held next : List UInt8} {b : UInt8} {text : List Char}

/-- The byte settles what the bytes are read as, whatever comes behind it. -/
theorem Advance.lossy (h : Advance held b text next) (hheld : held = [] ∨ Unfinished held)
    {rest : List UInt8} {more : List Char} (hrest : Lossy (next ++ rest) more) :
    Lossy (held ++ b :: rest) (text ++ more) := by
  induction h with
  | @complete held b c h =>
    rw [← List.singleton_append, ← List.append_assoc, h]
    exact .character hrest
  | more => simpa using hrest
  | @lone b h =>
    show Lossy ([b] ++ rest) (replacement :: more)
    exact .givenUp (givenUp_of_lone h rest) hrest
  | anew hne h _ ih =>
    refine .givenUp (givenUp_of_unfinished (hheld.resolve_left hne) fun d hd => ?_)
      (ih (.inl rfl) hrest)
    cases hd
    exact h

/-- What is held back is nothing, or the beginning of a character. -/
theorem Advance.unfinished (h : Advance held b text next) : next = [] ∨ Unfinished next := by
  induction h with
  | complete | lone => exact .inl rfl
  | more h => exact .inr h
  | anew _ _ _ ih => exact ih

/-- What is held back then is the only unfinished character that the byte ends. -/
theorem Advance.longest (h : Advance held b text next) (hheld : held = [] ∨ Unfinished held)
    {p : List UInt8} (hp : p <:+ held) (hunfinished : Unfinished (p ++ [b])) : p ++ [b] = next := by
  have hends : ∀ {held : List UInt8}, p <:+ held → p ++ [b] <:+ held ++ [b] := by
    rintro _ ⟨before, rfl⟩
    exact ⟨before, by simp⟩
  induction h with
  | complete h =>
    have heq := eq_of_unfinished_suffix hunfinished ⟨[], by rw [List.append_nil, h]⟩ (hends hp)
    exact absurd ⟨[], by rw [List.append_nil, heq, h]⟩ (hunfinished.not_encode_prefix _)
  | more h =>
    obtain ⟨-, c, rest, -, hc⟩ := h
    exact eq_of_unfinished_suffix hunfinished ⟨rest, hc⟩ (hends hp)
  | lone h =>
    obtain ⟨-, c, rest, -, hc⟩ := hunfinished
    obtain rfl := List.suffix_nil.1 hp
    exact absurd ⟨rest, hc⟩ (h c)
  | anew hne h _ ih =>
    by_cases hnil : p = []
    · exact ih (.inl rfl) (hnil ▸ List.suffix_rfl) hunfinished hends
    · obtain ⟨-, c, rest, -, hc⟩ := hheld.resolve_left hne
      obtain rfl := eq_of_unfinished_suffix (hunfinished.of_concat hnil) ⟨rest, hc⟩ hp
      obtain ⟨-, d, tail, -, hd⟩ := hunfinished
      exact absurd ⟨tail, hd⟩ (h d)

/-- A byte that begins anew is settled or held back. -/
theorem Advance.of_nothing (h : Advance [] b text next) :
    next = [] ∨ (next = [b] ∧ text = []) := by
  cases h with
  | complete | lone => exact .inl rfl
  | more => exact .inr ⟨rfl, rfl⟩
  | anew hne => exact absurd rfl hne

end Advance

/-! ### A whole run -/

/-- Of the bytes that came, the decoder has given `text` and holds `held` back. -/
structure Taken (bytes : List UInt8) (text : List Char) (held : List UInt8) : Prop where
  unfinished : held = [] ∨ Unfinished held
  settled : ∃ settled, bytes = settled ++ held ∧ Lossy settled text
  /-- Whatever comes behind the bytes, they begin with the text. -/
  lossy : ∀ {rest more}, Lossy (held ++ rest) more → Lossy (bytes ++ rest) (text ++ more)
  /-- No other end of the bytes is unfinished. -/
  longest : ∀ {p}, p <:+ bytes → Unfinished p → p <:+ held

theorem taken_nil : Taken [] [] [] where
  unfinished := .inl rfl
  settled := ⟨[], rfl, .done⟩
  lossy h := h
  longest hp _ := hp

/-- What is held back can be given up at the end. -/
theorem Taken.lossy_flush {bytes held : List UInt8} {text : List Char} (h : Taken bytes text held) :
    Lossy bytes (text ++ (Decoder.flush ⟨held⟩).1.toList) := by
  have hheld : Lossy (held ++ []) (Decoder.flush ⟨held⟩).1.toList := by
    rcases h.unfinished with rfl | hheld
    · exact .done
    · have hgiven : GivenUp held [] := givenUp_of_unfinished hheld (by simp)
      have hne := hheld.1
      simpa [Decoder.flush, hne] using Lossy.givenUp hgiven .done
  simpa using h.lossy hheld

/-- One more byte carries on what was taken. -/
theorem Taken.advance {bytes held next : List UInt8} {b : UInt8} {text more : List Char}
    (h : Taken bytes text held) (hb : Advance held b more next) :
    Taken (bytes ++ [b]) (text ++ more) next := by
  have hlossy : ∀ {rest tail}, Lossy (next ++ rest) tail →
      Lossy (bytes ++ [b] ++ rest) (text ++ more ++ tail) := by
    intro rest tail hrest
    have hmore := h.lossy (hb.lossy h.unfinished hrest)
    simpa using hmore
  have hwhole : next = [] → Lossy (bytes ++ [b]) (text ++ more) := by
    rintro rfl
    have hdone : Lossy ([] ++ []) [] := .done
    simpa using hlossy hdone
  refine ⟨hb.unfinished, ?_, hlossy, fun {p} hp hunfinished => ?_⟩
  · cases hb with
    | complete | lone => exact ⟨bytes ++ [b], by simp, hwhole rfl⟩
    | more =>
      obtain ⟨settled, rfl, hsettled⟩ := h.settled
      exact ⟨settled, by simp, by simpa using hsettled⟩
    | anew hne _ hnext =>
      rcases hnext.of_nothing with rfl | ⟨rfl, rfl⟩
      · exact ⟨bytes ++ [b], by simp, hwhole rfl⟩
      · have hflush := h.lossy_flush
        exact ⟨bytes, rfl, by simpa [Decoder.flush, hne] using hflush⟩
  · obtain rfl | ⟨p, rfl, hbytes⟩ := List.suffix_concat_iff.1 hp
    · exact absurd rfl hunfinished.1
    · have hheld : p <:+ held := by
        by_cases hnil : p = []
        · exact hnil ▸ List.nil_suffix
        · exact h.longest hbytes (hunfinished.of_concat hnil)
      exact hb.longest h.unfinished hheld hunfinished ▸ List.suffix_rfl

/-- One more piece carries on what was taken. -/
theorem Taken.decode {bytes held : List UInt8} {text : List Char} (h : Taken bytes text held)
    (piece : List UInt8) :
    Taken (bytes ++ piece) (text ++ (Decoder.decode ⟨held⟩ piece).1.toList)
      (Decoder.decode ⟨held⟩ piece).2.held := by
  induction piece generalizing bytes text held with
  | nil => simpa using h
  | cons b piece ih =>
    have hstep : Decoder.decode ⟨held⟩ [b] = Decoder.step "" ⟨held⟩ b := rfl
    have hrest := ih (h.advance (Decoder.advance_step held b))
    rw [← List.singleton_append, Decoder.decode_append, hstep]
    simpa using hrest

/-- Decode pieces one after the other; gives all their text together. -/
def Decoder.decodeAll (d : Decoder) : List (List UInt8) → String × Decoder
  | [] => ("", d)
  | piece :: rest =>
    let (text, d) := d.decode piece
    let (more, d) := d.decodeAll rest
    (text ++ more, d)

theorem Taken.decodeAll {bytes held : List UInt8} {text : List Char} (h : Taken bytes text held)
    (pieces : List (List UInt8)) :
    Taken (bytes ++ pieces.flatten) (text ++ (Decoder.decodeAll ⟨held⟩ pieces).1.toList)
      (Decoder.decodeAll ⟨held⟩ pieces).2.held := by
  induction pieces generalizing bytes text held with
  | nil => simpa [Decoder.decodeAll] using h
  | cons piece rest ih => simpa [Decoder.decodeAll] using ih (h.decode piece)

/-- Decoding pieces takes all their bytes, in order. -/
theorem taken_decodeAll (pieces : List (List UInt8)) :
    Taken pieces.flatten (Decoder.decodeAll {} pieces).1.toList
      (Decoder.decodeAll {} pieces).2.held :=
  taken_nil.decodeAll pieces

/-- The longest end of the bytes that is an unfinished character, or nothing. -/
structure HeldBack (bytes held : List UInt8) : Prop where
  suffix : held <:+ bytes
  unfinished : held = [] ∨ Unfinished held
  longest : ∀ p, p <:+ bytes → Unfinished p → p.length ≤ held.length

/-- **Decoding in pieces is reading the bytes at once**, wherever they are cut, and whether they are
a text or not.  Behind each piece the bytes held back are the longest end that is an unfinished
character, and the text before them has been given. -/
theorem decodes_in_pieces (pieces : List (List UInt8)) :
    (∀ text, Lossy pieces.flatten text ↔
      text = ((Decoder.decodeAll {} pieces).1 ++ (Decoder.decodeAll {} pieces).2.flush.1).toList) ∧
    ∀ k, ∃ settled held,
      (pieces.take k).flatten = settled ++ held ∧
      (Decoder.decodeAll {} (pieces.take k)).2.held = held ∧
      HeldBack (pieces.take k).flatten held ∧ held.length ≤ 3 ∧
      ∀ text, Lossy settled text ↔ text = (Decoder.decodeAll {} (pieces.take k)).1.toList := by
  have hread : ∀ {bytes text}, Lossy bytes text → ∀ text', Lossy bytes text' ↔ text' = text :=
    fun h text' => ⟨fun h' => h'.unique h, fun heq => heq ▸ h⟩
  refine ⟨hread ?_, fun k => ?_⟩
  · simpa using (taken_decodeAll pieces).lossy_flush
  · have htaken := taken_decodeAll (pieces.take k)
    obtain ⟨settled, hbytes, hsettled⟩ := htaken.settled
    refine ⟨settled, _, hbytes, rfl, ⟨hbytes ▸ List.suffix_append _ _, htaken.unfinished, ?_⟩, ?_,
      hread hsettled⟩
    · exact fun p hp hunfinished => (htaken.longest hp hunfinished).length_le
    · rcases htaken.unfinished with hnil | hheld
      · simp [hnil]
      · exact hheld.length_le

/-- A character of four bytes that breaks off behind its third is given up as one. -/
example : Decoder.decodeAll {} [[0xF0, 0x9F], [0x98], [0x41, 0xC3]] = ("\uFFFDA", ⟨[0xC3]⟩) := by
  decide

end AgentSurface.Text.Utf8
