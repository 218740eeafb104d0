import AgentSurface.Proofs.Catalog.Registration
import AgentSurface.Proofs.Stream.Pending
import AgentSurface.Proofs.Update.Sending

/-!
# Catalog — what the prompt teaches

The prompt of a catalog is text for a model, with an example message in a fence for each type.  A
reader takes it apart as it takes apart what a model answers: a text and a message for each type, in
order (`exists_lessons`).  The check takes each of these messages as a component of its type.

* `Harmless`: no line of a text opens a fence.
* `prompt_teaches`: what the prompt teaches is accepted.
-/

namespace AgentSurface.Catalog

open AgentSurface.Stream (Block Part Reader Tiling Opens Closes LooksLikeMarker)
open AgentSurface.Update (Component Message Sendable validate)

/-! ### Texts without openers -/

/-- No line of the text opens a fence. -/
def Harmless (text : List Char) : Prop :=
  ∀ line ∈ Text.lines text, ∀ kind, ¬ Opens {} kind line

theorem harmless_nil : Harmless [] := List.forall_mem_nil _

/-- Texts that are harmless line by line are so when joined by a line break. -/
theorem Harmless.append {s t : List Char} (hs : Harmless (s ++ ['\n'])) (ht : Harmless t) :
    Harmless (s ++ '\n' :: t) := by
  rw [Harmless, Text.lines_append_cons_feed]
  exact List.forall_mem_append.2 ⟨hs, ht⟩

theorem harmless_of_not_mem {text : List Char} (h : '\x60' ∉ text) : Harmless text := by
  intro line hline kind hopens
  have hmarker := List.mem_of_mem_head? (Option.mem_def.2 hopens.looksLikeMarker)
  exact h (Text.mem_of_mem_lines hline ((List.dropWhile_sublist _).mem hmarker))

/-- A line that begins with a character that is neither blank nor a backquote. -/
theorem harmless_line {c : Char} {s : List Char} (hblank : Text.isBlank c = false)
    (hc : c ≠ '\x60') (hs : '\n' ∉ s) : Harmless (c :: s ++ ['\n']) := by
  have hfeed : '\n' ∉ c :: s := by
    rintro (_ | ⟨_, h⟩)
    · exact absurd hblank (by decide)
    · exact hs h
  rw [Harmless, Text.lines_append_feed hfeed]
  refine List.forall_mem_singleton.2 fun kind hopens => hc ?_
  have hmarker := hopens.looksLikeMarker
  rw [LooksLikeMarker, Text.trimStart, List.cons_append,
    List.dropWhile_cons_of_neg (by simp [hblank])] at hmarker
  exact Option.some.inj hmarker

/-- The lines of the prompt before its first type. -/
theorem harmless_promptHeader : Harmless (promptHeader.toList ++ ['\n']) := by
  have hlines : ∀ line ∈ Text.lines (promptHeader.toList ++ ['\n']),
      Stream.Options.opener? {} line = none := by
    -- The pieces of the header are taken apart first, so that no joined text is computed.
    unfold promptHeader
    simp only [String.toList_append]
    repeat rw [String.toList_ofList]
    decide +kernel
  exact fun line hline => Stream.opener?_eq_none_iff.1 (hlines line hline)

/-! ### Lessons -/

/-- The prompt can teach the entry. -/
structure Entry.Teachable (e : Entry) : Prop where
  purpose : '\x60' ∉ e.purpose.toList
  example_ne : e.exampleData ≠ .null
  sendable : Sendable e.exampleData
  data : e.validateData e.exampleData = .ok []
  options : ∃ options, e.resolveOptions none = .ok (.ok options)

theorem Entry.Teachable.built {e : Entry} (he : e.Teachable) :
    ∀ c ∈ e.exampleMessage.components, c.Built :=
  List.forall_mem_singleton.2 (.new _ _ he.sendable)

/-- The text of the prompt before the example of an entry. -/
def lessonHead (e : Entry) : List Char :=
  '\n' :: ('#' :: '#' :: '#' :: ' ' :: e.typeName.toList ++ '\n' ::
    (e.purpose.toList ++ '\n' :: "Example:".toList))

/-- The text of the prompt about some entries. -/
def lessonsText : List Entry → List Char
  | [] => []
  | e :: rest =>
    lessonHead e ++ '\n' :: (Stream.jsonOpener ++ (e.exampleMessage.toJson.render ++ '\n' ::
      (Stream.marker ++ '\n' :: lessonsText rest)))

/-- The prompt of a catalog that has entries is its header and their lessons. -/
theorem toList_prompt {c : Catalog} (h : c.entries ≠ []) :
    c.prompt.toList = promptHeader.toList ++ '\n' :: lessonsText c.entries := by
  have hsections : ∀ entries : List Entry,
      (String.join (entries.map (promptSection false)) ++ "\n").toList =
        '\n' :: lessonsText entries := by
    intro entries
    induction entries with
    | nil => rfl
    | cons e rest ih =>
      have hgap : "\n\n".toList = ['\n', '\n'] := by decide
      have hmark : "### ".toList = ['#', '#', '#', ' '] := by decide
      have hfeed : "\n".toList = ['\n'] := by decide
      have hopen : "\nExample:\n\x60\x60\x60json\n".toList =
          '\n' :: ("Example:".toList ++ '\n' :: Stream.jsonOpener) := by decide
      have hclose : "\n\x60\x60\x60".toList = '\n' :: Stream.marker := by decide
      rw [List.map_cons, String.join_cons, String.append_assoc, String.toList_append, ih,
        promptSection, if_neg Bool.false_ne_true, Entry.describe, lessonsText, lessonHead]
      simp only [String.toList_append, hgap, hmark, hfeed, hopen, hclose, Json.compact,
        String.toList_ofList]
      simp
  rw [prompt, if_neg (by simpa using h), String.append_assoc, String.toList_append, hsections]

/-- The prompt is its lessons, with its header before the first of them. -/
theorem exists_before (c : Catalog) :
    ∃ before, c.prompt.toList = before ++ lessonsText c.entries ∧
      (∀ text, Harmless text → Harmless (before ++ text)) ∧ (c.entries = [] → before = []) := by
  by_cases h : c.entries = []
  · refine ⟨[], ?_, fun _ => id, fun _ => rfl⟩
    rw [prompt, h]
    rfl
  · refine ⟨promptHeader.toList ++ ['\n'], ?_, fun text htext => ?_, fun hnil => absurd hnil h⟩
    · rw [toList_prompt h, List.append_assoc, List.singleton_append]
    · rw [List.append_assoc, List.singleton_append]
      exact harmless_promptHeader.append htext

theorem not_mem_of_isTypeName {name : String} (h : isTypeName name = true) :
    '\n' ∉ name.toList := by
  simp only [isTypeName, Bool.and_eq_true, Bool.not_eq_true', List.any_eq_false] at h
  exact fun hmem => h.2 '\n' hmem (by decide)

theorem harmless_lessonHead {e : Entry} (hname : isTypeName e.typeName = true)
    (he : e.Teachable) : Harmless (lessonHead e ++ ['\n']) := by
  have hheading : Harmless ('#' :: '#' :: '#' :: ' ' :: e.typeName.toList ++ ['\n']) :=
    harmless_line (by decide) (by decide) (by simpa using not_mem_of_isTypeName hname)
  have hpurpose : Harmless (e.purpose.toList ++ ['\n']) :=
    harmless_of_not_mem (by simpa using he.purpose)
  have hexample : Harmless ("Example:".toList ++ ['\n']) := harmless_of_not_mem (by decide)
  have hempty : Harmless ([] ++ ['\n']) := harmless_of_not_mem (by decide)
  have hall := hempty.append (hheading.append (hpurpose.append hexample))
  simpa [lessonHead] using hall

/-- The tiles of the prompt: `before` is what stands before the first of the entries. -/
def lessonParts (before : List Char) : List Entry → List Part
  | [] => [.prose (Text.lines before)]
  | e :: rest =>
    .prose (Text.lines (before ++ lessonHead e ++ ['\n'])) ::
      Stream.messagePart e.exampleMessage.toJson.render (Stream.marker ++ ['\n']) ::
        lessonParts [] rest

/-- The parts of the lessons are the lines of their text. -/
theorem lines_lessonParts (before : List Char) (entries : List Entry) :
    (lessonParts before entries).flatMap Part.lines =
      Text.lines (before ++ lessonsText entries) := by
  induction entries generalizing before with
  | nil => simp [lessonParts, lessonsText, Part.lines]
  | cons e rest ih =>
    have hcloser : Text.lines (Stream.marker ++ '\n' :: lessonsText rest) =
        (Stream.marker ++ ['\n']) :: Text.lines (lessonsText rest) :=
      Text.lines_append_feed (by simp [Stream.marker]) _
    have hmessage := Text.lines_append_cons_feed e.exampleMessage.toJson.render
      (Stream.marker ++ '\n' :: lessonsText rest)
    rw [lessonsText, ← List.append_assoc, Text.lines_append_cons_feed,
      Stream.lines_jsonOpener_append, hmessage, hcloser, lessonParts, List.flatMap_cons,
      List.flatMap_cons, ih, Stream.lines_messagePart, Part.lines]
    simp

/-- The lessons are tiled by prose and one fence for each example. -/
theorem tiling_lessonParts {before : List Char} {entries : List Entry}
    (hbefore : ∀ text, Harmless text → Harmless (before ++ text))
    (h : ∀ e ∈ entries, isTypeName e.typeName = true ∧ e.Teachable) :
    Tiling {} (lessonParts before entries) := by
  induction entries generalizing before with
  | nil =>
    have hlast := hbefore [] harmless_nil
    rw [List.append_nil] at hlast
    exact .last hlast
  | cons e rest ih =>
    obtain ⟨⟨hname, he⟩, hrest⟩ := List.forall_mem_cons.1 h
    have hcloser : Closes (Stream.marker ++ ['\n']) := Stream.isCloser_iff.1 (by decide)
    -- What stands before the first entry is of one tile with the head of its lesson.
    have hhead := hbefore _ (harmless_lessonHead hname he)
    rw [← List.append_assoc] at hhead
    exact .closed hhead Stream.opens_jsonOpener
      (Stream.not_closes_written (Json.written_render _ (Message.writable_toJson he.built).1))
      hcloser (ih (fun _ => id) hrest)

/-- What the prompt says of an entry, as a reader takes it. -/
structure Lesson where
  text : String
  message : Json
  /-- The message as it was written. -/
  raw : String

/-- The blocks of a lesson: the text and behind it the message. -/
def Lesson.blocks (l : Lesson) : List Block := [.text l.text, .update l.message l.raw]

/-- There is a text before each example, which says more than blanks. -/
theorem exists_lessons {before : List Char} {entries : List Entry}
    (hbefore : entries = [] → before = []) (h : ∀ e ∈ entries, e.Teachable) :
    ∃ lessons : List Lesson,
      (lessonParts before entries).flatMap (Part.blocks {}) = lessons.flatMap Lesson.blocks ∧
      lessons.map Lesson.message = entries.map fun e => e.exampleMessage.toJson := by
  induction entries generalizing before with
  | nil =>
    rw [hbefore rfl]
    exact ⟨[], rfl, rfl⟩
  | cons e rest ih =>
    obtain ⟨he, hrest⟩ := List.forall_mem_cons.1 h
    obtain ⟨lessons, hlessons, hmessages⟩ := @ih [] (fun _ => rfl) hrest
    obtain ⟨hwritable, hnesting⟩ := Message.writable_toJson he.built
    obtain ⟨text, htext⟩ : ∃ text,
        (Part.prose (Text.lines (before ++ lessonHead e ++ ['\n']))).blocks {} = [.text text] := by
      -- The heading is no blank, so the text is not left out.
      have hmem : '#' ∈ before ++ lessonHead e ++ ['\n'] := by simp [lessonHead]
      rw [Part.blocks, Text.flatten_lines, Stream.proseBlocks, String.toList_ofList]
      cases hprose : Stream.prose? (before ++ lessonHead e ++ ['\n']) with
      | none => exact absurd (Stream.prose?_eq_none_iff.1 hprose '#' hmem) (by decide)
      | some text => exact ⟨_, rfl⟩
    refine ⟨⟨text, e.exampleMessage.toJson, e.exampleMessage.toJson.compact⟩ :: lessons, ?_, by
      rw [List.map_cons, List.map_cons, hmessages]⟩
    rw [lessonParts, List.flatMap_cons, List.flatMap_cons, htext, hlessons,
      Stream.blocks_messagePart (Json.written_render _ hwritable) hwritable hnesting
        (Message.isEnvelope_toJson _)]
    rfl

/-! ### Examples are accepted -/

/-- The check of the example of an entry finds the entry, and nothing wrong. -/
theorem exists_validate_example {c : Catalog} {e : Entry} (hget : c.get? e.typeName = some e)
    (he : e.Teachable) :
    ∃ options, validate c e.exampleMessage.toJson =
      .ok { valid := [⟨0, Text.lowercase e.typeName ++ "-1", e.typeName, e.exampleData, options,
        true⟩] } := by
  obtain ⟨options, hoptions⟩ := he.options
  have hshown : Update.Payload.shownData { data := e.exampleData } = e.exampleData := by
    have hne := he.example_ne
    unfold Update.Payload.shownData
    split
    · next hnull => exact absurd hnull hne
    · rfl
  have hcheck : Update.checkPayload e e.exampleData none = .ok (.ok options) := by
    rw [Update.checkPayload, he.data, hoptions]
    rfl
  have hentry : Update.validateEntry c 0
      (Component.new (Text.lowercase e.typeName ++ "-1") e.typeName e.exampleData).toJson =
      .ok (.ok
        ⟨0, Text.lowercase e.typeName ++ "-1", e.typeName, e.exampleData, options, true⟩) := by
    refine Update.validateEntry_eq_ok_iff.2 ⟨rfl, _, Update.shape_toJson rfl, ?_, ?_⟩
    · rw [Update.dataOf_payload, hshown]
    · rw [Update.options_payload]
      unfold Update.Holds
      rw [hget]
      exact ⟨hcheck, rfl⟩
  refine ⟨options, ?_⟩
  rw [validate, Update.components_toJson]
  exact Update.validateFrom_eq_ok_iff.2 ⟨_, .cons hentry .nil, rfl⟩

/-- The message has one component, which the check takes for one of the named type, with the
example of the last entry that was registered under the name. -/
def Accepted (calls : List Entry) (name : String) (message : Json) : Prop :=
  ∃ e options, calls.reverse.find? (·.typeName == name) = some e ∧
    validate (registered calls) message =
      .ok { valid := [⟨0, Text.lowercase name ++ "-1", name, e.exampleData, options, true⟩] }

/-- **What the prompt teaches is accepted.**  A catalog that was built by calls and whose entries
can be taught has a prompt which a reader with room for it takes as one lesson for each name, in
the order in which the names were first registered: a text and a message.  Each message passes the
check of the same catalog. -/
theorem prompt_teaches {calls : List Entry} (h : ∀ e ∈ (registered calls).entries, e.Teachable)
    (hroom : (registered calls).prompt.utf8ByteSize ≤ Stream.Options.maxBytes {}) :
    ∃ (last : Reader) (lessons : List Lesson),
      (Reader.new {}).Leads [.push (registered calls).prompt, .finish] last ∧
      last.blocks = lessons.flatMap Lesson.blocks ∧
      List.Forall₂ (fun name lesson => Accepted calls name lesson.message)
        ((calls.map (·.typeName)).filter fun name => isTypeName name).eraseDups lessons := by
  obtain ⟨before, htext, hbefore, hnone⟩ := exists_before (registered calls)
  obtain ⟨lessons, hlessons, hmessages⟩ := exists_lessons hnone h
  have htiling := tiling_lessonParts hbefore fun e he => ⟨isTypeName_of_mem he, h e he⟩
  have hblocks := htiling.blocks_close (by rw [lines_lessonParts, ← htext])
  refine ⟨_, lessons, (Reader.leads_of_delivers (.pieces [_] (by simp)) hroom).append
    (Reader.leads_finish (by simp) (by simp [Reader.new])), hblocks.trans hlessons, ?_⟩
  -- The names and the messages are those of the entries, one by one.
  rw [← typeNames_registered, typeNames, ← List.forall₂_map_right_iff, hmessages,
    List.forall₂_map_left_iff, List.forall₂_map_right_iff, List.forall₂_same]
  intro e he
  obtain ⟨options, hvalid⟩ :=
    exists_validate_example (get?_of_mem (nodup_typeNames_registered calls) he) (h e he)
  exact ⟨e, options, find?_reverse_of_mem he, hvalid⟩

/-- The second call is refused and the last one replaces an entry, whose example has a marker. -/
theorem prompt_teaches_replaced :
    let card : Entry :=
      { typeName := "Card", purpose := "Shows a card.", exampleData := .string "\n\x60\x60\x60",
        data := .ofFunction fun _ _ => [] }
    let calls : List Entry := [{ card with purpose := "" }, { card with typeName := "No name" },
      { card with typeName := "List" }, card]
    ∃ (last : Reader) (lessons : List Lesson),
      (Reader.new {}).Leads [.push (registered calls).prompt, .finish] last ∧
      last.blocks = lessons.flatMap Lesson.blocks ∧
      List.Forall₂ (fun name lesson => Accepted calls name lesson.message) ["Card", "List"]
        lessons := by
  intro card calls
  have hexample : Sendable card.exampleData := ⟨trivial, Nat.zero_le _⟩
  have hteachable : ∀ e ∈ calls, e.Teachable := by
    have hcard : ∀ typeName purpose, '\x60' ∉ purpose.toList →
        Entry.Teachable { card with typeName, purpose } := fun _ _ hpurpose =>
      ⟨hpurpose, nofun, hexample, rfl, ⟨_, rfl⟩⟩
    have hpurpose : '\x60' ∉ card.purpose.toList := by decide
    simp only [calls, List.forall_mem_cons]
    exact ⟨hcard _ _ (by decide), hcard _ _ hpurpose, hcard _ _ hpurpose, hcard _ _ hpurpose,
      List.forall_mem_nil _⟩
  have hentries : ∀ e ∈ (registered calls).entries, e.Teachable := fun e he =>
    hteachable e (List.mem_reverse.1 (List.mem_of_find?_eq_some (find?_reverse_of_mem he)))
  have hnames : ((calls.map (·.typeName)).filter fun name => isTypeName name).eraseDups =
      ["Card", "List"] := by decide +kernel
  rw [← hnames]
  exact prompt_teaches hentries (by decide +kernel)

end AgentSurface.Catalog
