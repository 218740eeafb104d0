import AgentSurface.Proofs.Json.Writing
import AgentSurface.Proofs.Stream.Reading

/-!
# Stream — values in fences

A written value has backquotes only inside of its strings, and so only on lines on which a quote
stands too: its text is `Guarded`.  Such a line closes no fence, whatever the strings are, and what
stands between two markers is read as the value that was written.

* `Guarded.not_closes`: no line of a guarded text closes a fence.
* `guarded_written`: the text of a value is guarded.
* `interpret_written`: a message that is written on lines of its own is the message again.
* `blocks_enclose`: a text that is a fence and nothing around it is read as the content of the
  fence.
-/

namespace AgentSurface.Stream

open Json (Phrase Written Spaces escape quote)
open Text (isBlank isBreak)

/-! ### Guarded texts -/

/-- Each line that has a backquote has a quote as well. -/
def Guarded (text : List Char) : Prop := ∀ line ∈ Text.lines text, '\x60' ∈ line → '"' ∈ line

/-- Two guarded texts are guarded when joined. -/
theorem Guarded.append {s t : List Char} (hs : Guarded s) (ht : Guarded t) : Guarded (s ++ t) := by
  refine Text.forall_lines_append (fun x y hx hy h => ?_) hs ht
  rcases List.mem_append.1 h with h | h
  · exact List.mem_append_left _ (hx h)
  · exact List.mem_append_right _ (hy h)

/-- A text without a backtick is guarded. -/
theorem guarded_of_not_mem {s : List Char} (h : '\x60' ∉ s) : Guarded s :=
  fun _ hline hc => absurd (Text.mem_of_mem_lines hline hc) h

/-- No line of a guarded text closes a fence. -/
theorem Guarded.not_closes {text : List Char} (h : Guarded text) :
    ∀ line ∈ Text.lines text, ¬ Closes line := by
  intro line hline hcloses
  obtain ⟨before, behind, rfl, hbefore, hbehind⟩ := hcloses.parts
  have hquote := h _ hline (by simp [marker])
  have hblank : isBlank '"' ≠ true := by decide
  rcases List.mem_append.1 hquote with hquote | hquote
  · rcases List.mem_append.1 hquote with hquote | hquote
    · exact hblank (hbefore _ hquote)
    · exact absurd hquote (by decide)
  · exact hblank (hbehind _ hquote)

/-! ### Written values -/

/-- No character is spelt in a string with a line break. -/
theorem not_mem_escape (c : Char) : '\n' ∉ escape c := by
  unfold escape
  iterate 7
    split
    · decide
  split
  · next hc =>
    have hdigit : ∀ k < 16, Json.hexDigit k ≠ '\n' := by decide
    have hhigh := hdigit (c.toNat / 16) (by omega)
    have hlow := hdigit (c.toNat % 16) (by omega)
    simp [Ne.symm hhigh, Ne.symm hlow]
  · next hfeed _ _ _ _ _ => simpa using Ne.symm hfeed

/-- A string stands on one line, with a quote before it. -/
theorem guarded_quote (s : String) : Guarded (quote s) := by
  have hfeed : '\n' ∉ quote s := by simp [quote, not_mem_escape]
  rw [Guarded, Text.lines_of_not_mem hfeed (List.cons_ne_nil _ _)]
  exact List.forall_mem_singleton.2 fun _ => List.mem_cons_self

theorem guarded_spaces {b : List Char} (hb : Spaces b) : Guarded b :=
  guarded_of_not_mem fun h => absurd (hb _ h) (by decide)

/-- A whole number is spelt without a backtick. -/
theorem guarded_renderInt (n : Int) : Guarded (Json.renderInt n) := by
  obtain ⟨c, cs, htext, hc, hcs⟩ := Json.exists_renderInt n
  have hdigit : Char.isDigit '\x60' = false := rfl
  refine guarded_of_not_mem fun h => ?_
  rw [htext, List.mem_cons] at h
  rcases h with rfl | h
  · simp [hdigit] at hc
  · exact Bool.false_ne_true (hdigit.symm.trans (hcs _ h))

theorem Guarded.cons {c : Char} (hc : c ≠ '\x60') {s : List Char} (h : Guarded s) :
    Guarded (c :: s) :=
  Guarded.append (s := [c]) (guarded_of_not_mem (by simpa using Ne.symm hc)) h

theorem guarded_member {key : String} {b b' s t : List Char} (hb : Spaces b) (hb' : Spaces b')
    (hs : Guarded s) (ht : Guarded t) : Guarded (b ++ quote key ++ ':' :: (b' ++ s) ++ t) :=
  (((guarded_spaces hb).append (guarded_quote key)).append
    (((guarded_spaces hb').append hs).cons (by decide))).append ht

/-- The text of a value is guarded. -/
theorem guarded_written {p : Phrase} {text : List Char} (h : Written p text) : Guarded text := by
  induction h with
  | word h => cases h <;> exact guarded_of_not_mem (by decide)
  | number w => exact guarded_renderInt w.val
  | string s => exact guarded_quote s
  | emptyArray => exact guarded_of_not_mem (by decide)
  | array hb _ _ ih ihrest => exact (((guarded_spaces hb).append ih).append ihrest).cons (by decide)
  | emptyObject => exact guarded_of_not_mem (by decide)
  | object hb hb' _ _ ih ihrest => exact (guarded_member hb hb' ih ihrest).cons (by decide)
  | noItem hb => exact (guarded_spaces hb).append (guarded_of_not_mem (by decide))
  | item hb _ _ ih ihrest => exact (((guarded_spaces hb).append ih).append ihrest).cons (by decide)
  | noMember hb => exact (guarded_spaces hb).append (guarded_of_not_mem (by decide))
  | member hb hb' _ _ ih ihrest => exact (guarded_member hb hb' ih ihrest).cons (by decide)

/-- The text of the members of an object ends with its brace. -/
theorem brace_isSuffix {members : Json.Fields} {text : List Char}
    (h : Written (.members members) text) : ['}'] <:+ text := by
  induction members generalizing text with
  | nil => cases h with | noMember hb => exact List.suffix_append _ _
  | cons member rest ih =>
    cases h with
    | member hb hb' _ hrest =>
      exact ((ih hrest).trans (List.suffix_append _ _)).trans (List.suffix_cons _ _)

/-- The text of an object ends in its closing brace. -/
theorem brace_isSuffix_of_object {members : Json.Fields} {text : List Char}
    (h : Written (.value (.object members)) text) : ['}'] <:+ text := by
  cases h with
  | word h => cases h
  | emptyObject => exact List.suffix_append ['{'] _
  | object hb hb' _ hrest =>
    exact ((brace_isSuffix hrest).trans (List.suffix_append _ _)).trans (List.suffix_cons _ _)

/-! ### Fences that are written -/

namespace FenceKind

/-- The first line of a fence of this kind. -/
def opener (kind : FenceKind) : Line := marker ++ kind.name.toList ++ ['\n']

/-- A content in a fence of this kind. -/
def enclose (kind : FenceKind) (raw : String) : String :=
  "\x60\x60\x60" ++ kind.name ++ "\n" ++ raw ++ "\n\x60\x60\x60"

theorem opens_opener (kind : FenceKind) : Opens {} kind kind.opener := by
  cases kind <;> exact opener?_eq_some_iff.1 (by decide)

theorem whole_opener (kind : FenceKind) : Text.Whole kind.opener :=
  ⟨marker ++ kind.name.toList, by cases kind <;> decide, rfl⟩

/-- The opener is the first line of whatever it stands in front of. -/
theorem lines_opener_append (kind : FenceKind) (rest : List Char) :
    Text.lines (kind.opener ++ rest) = kind.opener :: Text.lines rest := by
  simpa using Text.lines_flatten_append (List.forall_mem_singleton.2 kind.whole_opener) rest

/-- An enclosed text is the opener's line, the text itself and the marker on a line of its own. -/
theorem toList_enclose (kind : FenceKind) (raw : String) :
    (kind.enclose raw).toList = kind.opener ++ (raw.toList ++ '\n' :: marker) := by
  have hmarker : "\x60\x60\x60".toList = marker := by decide
  have hend : "\n\x60\x60\x60".toList = '\n' :: marker := by decide
  simp only [enclose, opener, String.toList_append, hmarker, hend, List.append_assoc]
  rfl

theorem enclose_json (raw : String) : json.enclose raw = fenced raw := by
  have hbegin : "\x60\x60\x60json\n".toList = json.opener := by decide
  have hend : "\n\x60\x60\x60".toList = '\n' :: marker := by decide
  rw [← String.toList_inj, toList_enclose, fenced, String.toList_append, String.toList_append,
    hbegin, hend, List.append_assoc]

end FenceKind

/-! ### Messages -/

/-- **A message that is written in a fence is read from it.**  The content of the fence is the text
of the message and a line feed. -/
theorem interpret_written {v : Json} {text : List Char} (h : Written (.value v) text)
    (hv : v.Writable) (hdepth : v.nesting ≤ Json.maxDepth)
    (henvelope : Update.isEnvelope v = true) :
    interpret .json (String.ofList (text ++ ['\n'])) = [.update v (String.ofList text)] := by
  -- The text ends with a brace, so only the line feed behind it is taken off.
  obtain ⟨s, rfl⟩ : ['}'] <:+ text := by
    cases v with
    | object members => exact brace_isSuffix_of_object h
    | _ => cases henvelope
  have hraw : Text.dropEndWhile isBreak (s ++ ['}'] ++ ['\n']) = s ++ ['}'] := by
    rw [Text.dropEndWhile_append_of_all _ (List.forall_mem_singleton.2 rfl)]
    exact Text.dropEndWhile_of_last (by simp [isBreak])
  simp only [interpret, String.toList_ofList, hraw, jsonBlocks, h.parse_eq hv hdepth, valueBlocks,
    henvelope, if_true]

/-- The first line of a fence for JSON. -/
def jsonOpener : Line := marker ++ ['j', 's', 'o', 'n', '\n']

theorem opens_jsonOpener : Opens {} .json jsonOpener := FenceKind.json.opens_opener

theorem lines_jsonOpener_append (rest : List Char) :
    Text.lines (jsonOpener ++ rest) = jsonOpener :: Text.lines rest :=
  FenceKind.json.lines_opener_append rest

/-- The tile of a message: its fence has the lines of its text. -/
def messagePart (text : List Char) (closer : Line) : Part :=
  .fence .json jsonOpener (Text.lines (text ++ ['\n'])) (some closer)

theorem lines_messagePart (text : List Char) (closer : Line) :
    (messagePart text closer).lines = jsonOpener :: Text.lines (text ++ ['\n']) ++ [closer] := rfl

/-- No line of a written value closes the fence it is put in. -/
theorem not_closes_written {p : Phrase} {text : List Char} (h : Written p text) :
    ∀ line ∈ Text.lines (text ++ ['\n']), ¬ Closes line :=
  ((guarded_written h).append (guarded_of_not_mem (by decide))).not_closes

/-- The fence around a written envelope gives one update block, with the value and the text as
written. -/
theorem blocks_messagePart {v : Json} {text : List Char} (h : Written (.value v) text)
    (hv : v.Writable) (hdepth : v.nesting ≤ Json.maxDepth) (henvelope : Update.isEnvelope v = true)
    (options : Options) (closer : Line) :
    (messagePart text closer).blocks options = [.update v (String.ofList text)] := by
  rw [messagePart, Part.blocks, Text.flatten_lines, interpret_written h hv hdepth henvelope]

theorem blocks_prose_nil (options : Options) : (Part.prose []).blocks options = [] := rfl

/-! ### A fence and nothing around it -/

/-- **A content without a closer, in a fence of its own, is read from it.** -/
theorem blocks_enclose (kind : FenceKind) {raw : List Char}
    (h : ∀ line ∈ Text.lines (raw ++ ['\n']), ¬ Closes line) :
    ((Reader.new {}).feedAll (kind.enclose (String.ofList raw)).toList).close.blocks =
      interpret kind (String.ofList (raw ++ ['\n'])) := by
  have hcloser : Closes marker := isCloser_iff.1 (by decide)
  have htiling : Tiling {} [.prose [], .fence kind kind.opener (Text.lines (raw ++ ['\n']))
      (some marker), .prose []] :=
    .closed (List.forall_mem_nil _) kind.opens_opener h hcloser (.last (List.forall_mem_nil _))
  have hlines : [.prose [], .fence kind kind.opener (Text.lines (raw ++ ['\n'])) (some marker),
      .prose []].flatMap Part.lines =
      Text.lines (kind.enclose (String.ofList raw)).toList := by
    have hmarker : Text.lines marker = [marker] :=
      Text.lines_of_not_mem (by simp [marker]) (by simp [marker])
    rw [kind.toList_enclose, String.toList_ofList, kind.lines_opener_append,
      Text.lines_append_cons_feed raw marker, hmarker]
    simp [Part.lines]
  have hfence : (Part.fence kind kind.opener (Text.lines (raw ++ ['\n'])) (some marker)).blocks {} =
      interpret kind (String.ofList (raw ++ ['\n'])) := by
    rw [Part.blocks, Text.flatten_lines]
  rw [htiling.blocks_close hlines]
  simp only [List.flatMap_cons, List.flatMap_nil, blocks_prose_nil, List.nil_append,
    List.append_nil, hfence]

/-- A fence with a message in it, and nothing around it, is the message. -/
theorem blocks_fenced {v : Json} {text : List Char} (h : Written (.value v) text)
    (hv : v.Writable) (hdepth : v.nesting ≤ Json.maxDepth)
    (henvelope : Update.isEnvelope v = true) :
    ((Reader.new {}).feedAll (fenced (String.ofList text)).toList).close.blocks =
      [.update v (String.ofList text)] := by
  rw [← FenceKind.enclose_json, blocks_enclose .json (not_closes_written h),
    interpret_written h hv hdepth henvelope]

end AgentSurface.Stream
