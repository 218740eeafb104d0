import AgentSurface.Config.Settings
import AgentSurface.Proofs.Stream.Reading
import AgentSurface.Proofs.Text.Lowercase

/-!
# Config — settings that pass name fences without ambiguity

Tags are checked by their full lower case, and read up to the case of ASCII letters.  The check is
the stronger one: two tags that are read as one have one lower case, so tags that pass the check are
words of which none is read as a tag of both kinds (`ProperTags`).

* `ProperTags.opens_iff`: then a line opens a fence of a kind exactly if it is written with a tag of
  this kind (`Tagged`).
* `fences_unambiguous`: what this says about settings that pass, and about a reader with them.
-/

namespace AgentSurface

namespace Text

theorem isBlank_toLower (c : Char) : isBlank c.toLower = isBlank c :=
  forall_of_ascii (p := fun c => isBlank c.toLower = isBlank c) (by decide)
    (fun _ h => congrArg isBlank h) c

/-- The case of ASCII letters does not matter for blanks. -/
theorem any_isBlank_of_sameTag {a b : String} (h : sameTag a b = true) :
    a.toList.any isBlank = b.toList.any isBlank := by
  have hlower : ∀ s : List Char, (s.map Char.toLower).any isBlank = s.any isBlank := fun s => by
    rw [List.any_map, funext isBlank_toLower (f := isBlank ∘ Char.toLower)]
  rw [← hlower a.toList, beq_iff_eq.1 h, hlower]

theorem isEmpty_of_sameTag {a b : String} (h : sameTag a b = true) : a.isEmpty = b.isEmpty := by
  have hlength := congrArg List.length (beq_iff_eq.1 h)
  rw [List.length_map, List.length_map] at hlength
  rw [Bool.eq_iff_iff, String.isEmpty_iff, String.isEmpty_iff, ← String.toList_eq_nil_iff,
    ← String.toList_eq_nil_iff, ← List.length_eq_zero_iff, ← List.length_eq_zero_iff, hlength]

end Text

namespace Stream

open Text (isBlank sameTag Strips)

/-! ### Lines with tags -/

/-- The tags of a kind of fence. -/
def Options.tags (options : Options) : FenceKind → List String
  | .json => options.jsonTags
  | .jsx => options.jsxTags

/-- The line is three backquotes and one of these tags, in any case of ASCII letters, with blanks
around each. -/
def Tagged (tags : List String) (line : Line) : Prop :=
  ∃ t ∈ tags, ∃ word before between behind : List Char,
    sameTag t (String.ofList word) = true ∧ (∀ c ∈ before, isBlank c = true) ∧
      (∀ c ∈ between, isBlank c = true) ∧ (∀ c ∈ behind, isBlank c = true) ∧
        line = before ++ marker ++ between ++ word ++ behind

/-- The kind of fence that a tag names, where the tags of JSX are looked at first. -/
def Options.kindJsxFirst? (options : Options) (tag : String) : Option FenceKind :=
  if options.jsxTags.any (sameTag · tag) then some .jsx
  else if options.jsonTags.any (sameTag · tag) then some .json
  else none

/-- Tags are words, and no tag of one kind has the lower case of a tag of the other kind. -/
structure ProperTags (options : Options) : Prop where
  words : ∀ kind, ∀ t ∈ options.tags kind, Config.Settings.isTag t = true
  apart : ∀ t ∈ options.jsonTags, ∀ u ∈ options.jsxTags, Text.lowercase t ≠ Text.lowercase u

namespace ProperTags

variable {options : Options} {kind : FenceKind} {line : Line} {t : String} {word : List Char}

/-- What is read as a tag is a word. -/
theorem word_of_sameTag (h : ProperTags options) (ht : t ∈ options.tags kind)
    (hword : sameTag t (String.ofList word) = true) :
    word ≠ [] ∧ ∀ c ∈ word, isBlank c = false := by
  have htag := h.words kind t ht
  rw [Config.Settings.isTag, Text.isEmpty_of_sameTag hword, Text.any_isBlank_of_sameTag hword,
    String.toList_ofList] at htag
  simpa using htag

/-- No text is read as a tag of both kinds. -/
theorem not_both (h : ProperTags options) {tag : String} {u : String} (ht : t ∈ options.jsonTags)
    (hu : u ∈ options.jsxTags) (htag : sameTag t tag = true) : sameTag u tag = false := by
  refine Bool.eq_false_iff.2 fun hsame => h.apart t ht u hu ?_
  rw [Text.lowercase_of_sameTag htag, Text.lowercase_of_sameTag hsame]

theorem names_iff (h : ProperTags options) :
    options.Names word kind ↔ ∃ t ∈ options.tags kind, sameTag t (String.ofList word) = true := by
  cases kind with
  | json => exact Iff.rfl
  | jsx =>
    refine ⟨And.left, fun hjsx => ⟨hjsx, fun t ht => Bool.eq_false_iff.2 fun hsame => ?_⟩⟩
    obtain ⟨u, hu, hword⟩ := hjsx
    rw [h.not_both ht hu hsame] at hword
    exact Bool.false_ne_true hword

/-- **A line opens a fence of a kind if it is written with a tag of this kind**, and else not. -/
theorem opens_iff (h : ProperTags options) :
    options.opener? line = some kind ↔ Tagged (options.tags kind) line := by
  rw [opener?_eq_some_iff]
  constructor
  · rintro ⟨rest, word, hline, hrest, hnames⟩
    obtain ⟨before, last, rfl, hbefore, hlast⟩ := hline.parts
    obtain ⟨between, behind, rfl, hbetween, hbehind⟩ := hrest.parts
    obtain ⟨t, ht, hword⟩ := h.names_iff.1 hnames
    refine ⟨t, ht, word, before, between, behind ++ last, hword, hbefore, hbetween, ?_, ?_⟩
    · exact List.forall_mem_append.2 ⟨hbehind, hlast⟩
    · simp only [List.append_assoc]
  · rintro ⟨t, ht, word, before, between, behind, hword, hbefore, hbetween, hbehind, rfl⟩
    obtain ⟨hne, hplain⟩ := h.word_of_sameTag ht hword
    have hlast : ∀ c ∈ word.getLast?, isBlank c = false :=
      fun c hc => hplain c (List.mem_of_getLast? hc)
    refine ⟨between ++ word, word, ⟨⟨before, behind, ?_, hbefore, hbehind⟩, ?_, ?_⟩,
      ⟨⟨between, [], ?_, hbetween, List.forall_mem_nil _⟩, ?_, hlast⟩,
      h.names_iff.2 ⟨t, ht, hword⟩⟩
    · simp only [List.append_assoc]
    · rintro c ⟨⟩
      rfl
    · rwa [← List.append_assoc, List.getLast?_append_of_ne_nil _ hne]
    · rw [List.append_nil]
    · exact fun c hc => hplain c (List.mem_of_head? hc)

/-- No line is written with tags of both kinds. -/
theorem not_tagged_both (h : ProperTags options) :
    ¬ (Tagged options.jsonTags line ∧ Tagged options.jsxTags line) := by
  rintro ⟨hjson, hjsx⟩
  have hopens : options.opener? line = some .json := h.opens_iff.2 hjson
  rw [show options.opener? line = some .jsx from h.opens_iff.2 hjsx] at hopens
  cases hopens

/-- The order of the tags does not matter. -/
theorem opener?_perm (h : ProperTags options) {other : Options}
    (hperm : ∀ kind, (other.tags kind).Perm (options.tags kind)) :
    other.opener? line = options.opener? line := by
  have hother : ProperTags other :=
    ⟨fun kind t ht => h.words kind t ((hperm kind).mem_iff.1 ht), fun t ht u hu =>
      h.apart t ((hperm .json).mem_iff.1 ht) u ((hperm .jsx).mem_iff.1 hu)⟩
  refine Option.ext fun kind => ?_
  rw [hother.opens_iff, h.opens_iff, Tagged, Tagged]
  simp only [(hperm kind).mem_iff]

/-- It does not matter which tags are looked at first. -/
theorem kindJsxFirst?_eq (h : ProperTags options) (tag : String) :
    options.kindJsxFirst? tag = options.kindOf? tag := by
  unfold Options.kindJsxFirst? Options.kindOf?
  by_cases hjson : options.jsonTags.any (sameTag · tag) = true
  · obtain ⟨t, ht, htag⟩ := List.any_eq_true.1 hjson
    have hjsx : ¬ options.jsxTags.any (sameTag · tag) = true := by
      rw [List.any_eq_true]
      rintro ⟨u, hu, hsame⟩
      rw [h.not_both ht hu htag] at hsame
      exact Bool.false_ne_true hsame
    rw [if_neg hjsx, if_pos hjson, if_pos hjson]
  · rw [if_neg hjson, if_neg hjson]

/-- Three backquotes alone open nothing. -/
theorem opener?_of_closes (h : ProperTags options) (hline : Closes line) :
    options.opener? line = none := by
  refine opener?_eq_none_iff.2 fun kind hopens => ?_
  obtain ⟨rest, word, hstrips, hrest, hnames⟩ := hopens
  have hbare : marker ++ rest = marker :=
    (Text.trim_eq_iff.2 hstrips).symm.trans (Text.trim_eq_iff.2 hline)
  obtain rfl : rest = [] := by simpa using hbare
  obtain ⟨t, ht, hword⟩ := h.names_iff.1 hnames
  exact (h.word_of_sameTag ht hword).1 (Text.trim_eq_iff.2 hrest).symm

end ProperTags

/-! ### A reader outside a fence -/

namespace Reader

variable {r : Reader}

theorem fence?_takeLine (h : r.run.fence? = none) (line : String) :
    (r.takeLine line).run.fence? = r.options.opener? line.toList := by
  cases hrun : r.run with
  | fence kind opener content => rw [hrun] at h; cases h
  | prose text =>
    rw [takeLine, hrun]
    dsimp only
    split
    · next kind hopener => rw [hopener]; rfl
    · next hopener => rw [hopener]; rfl

/-- Outside a fence, the rest of a line decides whether the line opens one. -/
theorem fence?_push_line (hr : r.phase = .streaming) (h : r.run.fence? = none) {rest : String}
    (hrest : '\n' ∉ rest.toList)
    (hroom : r.buffer.utf8ByteSize + (rest ++ "\n").utf8ByteSize ≤ r.options.maxBytes) :
    ∃ blocks next, r.push (rest ++ "\n") = (.ok blocks, next) ∧
      next.run.fence? = r.options.opener? (r.line ++ rest).toList := by
  obtain ⟨blocks, hpush⟩ := push_eq hr (rest ++ "\n") hroom
  have hnext : r.feedAll (rest ++ "\n").toList =
      r.atLineStart.takeLine ((r.line ++ rest).push '\n') := by
    rw [String.toList_append, feedAll_append, feedAll_of_not_mem r hrest, String.ofList_toList]
    exact feed_newline _
  refine ⟨blocks, _, hpush, ?_⟩
  rw [hnext, fence?_takeLine (r := r.atLineStart) h, String.toList_push]
  exact opener?_append_blank r.options _ (List.forall_mem_singleton.2 rfl)

end Reader
end Stream

namespace Config

/-- Settings that pass have proper tags. -/
theorem Settings.properTags_of_fault? {s : Settings} (h : s.fault? = none) :
    Stream.ProperTags s.parser := by
  simp only [fault?] at h
  split at h
  · cases h
  split at h
  · cases h
  split at h
  · cases h
  next hwords =>
    have hword : ∀ t ∈ s.parser.jsonTags ++ s.parser.jsxTags, isTag t = true := by
      simpa using List.find?_eq_none.1 hwords
    refine ⟨fun kind t ht => hword t ?_, fun t ht u hu heq => ?_⟩
    · cases kind with
      | json => exact List.mem_append_left _ ht
      | jsx => exact List.mem_append_right _ ht
    · refine List.find?_eq_none.1 (Option.map_eq_none_iff.1 h) u hu ?_
      rw [List.contains_iff_mem, ← heq]
      exact List.mem_map_of_mem ht

/-- **Settings that pass name fences without ambiguity.**  Outside a fence, a line opens a fence of a
kind exactly if it is written with a tag of this kind, in any case of ASCII letters and with blanks
around; no line is written with tags of both kinds, so neither the order of the tags nor that of the
kinds matters; and three backquotes alone open nothing.  A reader with these settings goes by this,
in whatever pieces it is given the line. -/
theorem fences_unambiguous {s : Settings} (h : s.fault? = none) :
    (∀ kind line,
        s.parser.opener? line = some kind ↔ Stream.Tagged (s.parser.tags kind) line) ∧
      (∀ line, ¬ (Stream.Tagged s.parser.jsonTags line ∧ Stream.Tagged s.parser.jsxTags line)) ∧
      (∀ other : Stream.Options, (∀ kind, (other.tags kind).Perm (s.parser.tags kind)) →
        ∀ line, other.opener? line = s.parser.opener? line) ∧
      (∀ tag, s.parser.kindJsxFirst? tag = s.parser.kindOf? tag) ∧
      (∀ line, Text.trim line = Stream.marker → s.parser.opener? line = none) ∧
      ∀ r : Stream.Reader, r.options = s.parser → r.phase = .streaming → r.run.fence? = none →
        ∀ rest : String, '\n' ∉ rest.toList →
          r.buffer.utf8ByteSize + (rest ++ "\n").utf8ByteSize ≤ s.parser.maxBytes →
            ∃ blocks next, r.push (rest ++ "\n") = (.ok blocks, next) ∧
              next.run.fence? = s.parser.opener? (r.line ++ rest).toList := by
  have htags := Settings.properTags_of_fault? h
  refine ⟨fun kind line => htags.opens_iff, fun line => htags.not_tagged_both,
    fun other hperm line => htags.opener?_perm hperm, htags.kindJsxFirst?_eq,
    fun line hline => htags.opener?_of_closes (Text.trim_eq_iff.1 hline), ?_⟩
  rintro r hoptions hr hfence rest hrest hroom
  rw [← hoptions] at hroom ⊢
  exact Stream.Reader.fence?_push_line hr hfence hrest hroom

/-- A tag that begins with a backquote, beside tags with a sigma at their end: four backquotes open
a fence of the second kind. -/
theorem fences_unambiguous_backquote :
    let s : Settings :=
      { parser := { jsonTags := ["json", "ΑΣ", "ας"], jsxTags := ["jsx", "`x", "ασ"] } }
    let line := " ````X\t".toList
    s.fault? = none ∧ Stream.Tagged s.parser.jsxTags line ∧ s.parser.opener? line = some .jsx := by
  intro s line
  have hpass : s.fault? = none := by decide
  have htagged : Stream.Tagged s.parser.jsxTags line :=
    ⟨"`x", by decide, "`X".toList, [' '], [], ['\t'], by decide,
      List.forall_mem_singleton.2 (by decide), List.forall_mem_nil _,
      List.forall_mem_singleton.2 (by decide), by decide⟩
  exact ⟨hpass, htagged, ((fences_unambiguous hpass).1 .jsx line).2 htagged⟩

end Config
end AgentSurface
