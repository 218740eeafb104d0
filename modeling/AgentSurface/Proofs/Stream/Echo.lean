import AgentSurface.Proofs.Json.Readable
import AgentSurface.Proofs.Stream.Delivery
import AgentSurface.Proofs.Stream.Fenced
import AgentSurface.Proofs.Text.Margins

/-!
# Stream — blocks that are read again

A block is written back as text: prose as it is, and the content of a fence in a fence of its own
(`Block.source`).  Whether a line opens or closes a fence depends on what is left of it without the
blanks around it, and blanks are all that a block leaves out of its text.  So no line of the text of
a block is a marker that was none before.

* `Tiling.proper`: no line of a tile ends it.
* `interpret_cases`: a fence is one block, which stands for all of its content, or it is a list of
  messages.
* `block_read_again`: from the text of a block, the block is read again, and nothing else.
-/

namespace AgentSurface.Stream

open Text (isBlank isBreak)

/-- Lines that are the same but for blanks around them open the same fences. -/
theorem opens_congr {options : Options} {kind : FenceKind} {x y : Line}
    (h : Text.trim x = Text.trim y) : Opens options kind x ↔ Opens options kind y := by
  rw [← opener?_eq_some_iff, ← opener?_eq_some_iff, Options.opener?, Options.opener?, h]

/-- Lines that are the same but for blanks around them close a fence alike. -/
theorem closes_congr {x y : Line} (h : Text.trim x = Text.trim y) : Closes x ↔ Closes y := by
  rw [← isCloser_iff, ← isCloser_iff, isCloser, isCloser, h]

/-! ### Tiles of a text -/

/-- No line of the tile ends it. -/
def Part.Proper (options : Options) : Part → Prop
  | .prose run => ∀ line ∈ run, ∀ kind, ¬ Opens options kind line
  | .fence _ _ content _ => ∀ line ∈ content, ¬ Closes line

/-- The parts of a tiling are proper. -/
theorem Tiling.proper {options : Options} {parts : List Part} (h : Tiling options parts) :
    ∀ part ∈ parts, part.Proper options := by
  induction h with
  | last hrun => exact List.forall_mem_singleton.2 hrun
  | unclosed hrun _ hcontent =>
    exact List.forall_mem_cons.2 ⟨hrun, List.forall_mem_singleton.2 hcontent⟩
  | closed hrun _ hcontent _ _ ih =>
    exact List.forall_mem_cons.2 ⟨hrun, List.forall_mem_cons.2 ⟨hcontent, ih⟩⟩

theorem Part.lines_infix {parts : List Part} {part : Part} (h : part ∈ parts) :
    part.lines <:+: parts.flatMap Part.lines :=
  List.infix_of_mem_flatten (List.mem_map_of_mem h)

/-! ### Blocks and their texts -/

/-- A block, written back as text. -/
def Block.source : Block → String
  | .text t => t
  | .jsx source _ => FenceKind.jsx.enclose source
  | .update _ raw => FenceKind.json.enclose raw
  | .fault kind raw _ => kind.enclose raw

/-- From the text of the block, the block is read, and nothing else. -/
def Block.Echoes (b : Block) : Prop :=
  ((Reader.new {}).feedAll b.source.toList).close.blocks = [b]

/-- The text of a run of prose is read again. -/
theorem echoes_prose {run : List Char} {text : List Char}
    (hrun : ∀ line ∈ Text.lines run, ∀ kind, ¬ Opens {} kind line)
    (h : prose? run = some text) : (Block.text (String.ofList text)).Echoes := by
  obtain ⟨hstrips, hne⟩ := prose?_eq_some_iff.1 h
  obtain ⟨before, behind, rfl, hbefore, hbehind⟩ := hstrips.parts
  have hbreaks : ∀ c ∈ before, isBlank c = true := fun c hc => isBlank_of_isBreak (hbefore c hc)
  -- Each line of what is left was a line of the run, up to blanks, and opened no fence there.
  have htiling : Tiling {} [.prose (Text.lines text)] := by
    refine .last fun line hline kind hopens => ?_
    obtain ⟨l, hl, htrim⟩ := Text.exists_line_of_mem_core hbreaks hbehind hline
    exact hrun l hl kind ((opens_congr htrim).2 hopens)
  have hprose : prose? text = some text :=
    prose?_eq_some_iff.2 ⟨⟨⟨[], [], by simp, List.forall_mem_nil _, List.forall_mem_nil _⟩,
      hstrips.head, hstrips.last⟩, hne⟩
  have hlines : [Part.prose (Text.lines text)].flatMap Part.lines =
      Text.lines (String.ofList text).toList := by simp [Part.lines]
  rw [Block.Echoes, Block.source, htiling.blocks_close hlines]
  simp [Part.blocks, Text.flatten_lines, proseBlocks, hprose]

/-- What a fence holds, without the line breaks at its end. -/
def rawOf (content : List Char) : List Char := Text.dropEndWhile isBreak content

/-- The line break that is put behind a content does not change what is read from it. -/
theorem interpret_rawOf (kind : FenceKind) (content : List Char) :
    interpret kind (String.ofList (rawOf content ++ ['\n'])) =
      interpret kind (String.ofList content) := by
  have hraw : Text.dropEndWhile isBreak (rawOf content ++ ['\n']) = rawOf content := by
    rw [Text.dropEndWhile_append_of_all _ (List.forall_mem_singleton.2 rfl)]
    exact Text.dropEndWhile_of_last (Text.getLast?_dropEndWhile isBreak content)
  rw [rawOf] at hraw ⊢
  simp only [interpret, String.toList_ofList, hraw]

theorem not_closes_rawOf {content : List Char} (h : ∀ line ∈ Text.lines content, ¬ Closes line) :
    ∀ line ∈ Text.lines (rawOf content ++ ['\n']), ¬ Closes line := by
  intro line hline hcloses
  obtain ⟨behind, hcontent, hbehind⟩ := Text.exists_dropEndWhile_append isBreak content
  rcases Text.exists_line_of_mem_lines_append_feed hline with hblank | ⟨l, hl, htrim⟩
  · rw [Closes, ← Text.trim_eq_iff, hblank] at hcloses
    cases hcloses
  · obtain ⟨l', hl', htrim'⟩ := Text.exists_line_append_blank
      (fun c hc => isBlank_of_isBreak (hbehind c hc)) hl
    exact h l' (hcontent ▸ hl') ((closes_congr (htrim'.trans htrim)).2 hcloses)

/-- A fence is one block, which stands for all of its content, or it is a list of messages. -/
theorem interpret_cases (kind : FenceKind) (content : List Char) :
    (∃ b : Block, interpret kind (String.ofList content) = [b] ∧
      b.source = kind.enclose (String.ofList (rawOf content))) ∨
    ∃ items, Json.parse (rawOf content) = .ok (.array items) ∧
      (∀ message ∈ items, Update.isEnvelope message = true) ∧
      interpret kind (String.ofList content) =
        items.map fun message => .update message message.compact := by
  have hfenced := (FenceKind.enclose_json (String.ofList (rawOf content))).symm
  rw [rawOf] at hfenced ⊢
  simp only [interpret, String.toList_ofList]
  cases kind with
  | jsx =>
    dsimp only [jsxBlocks]
    split <;> exact .inl ⟨_, rfl, rfl⟩
  | json =>
    dsimp only [jsonBlocks]
    split
    · next v hparse =>
      unfold valueBlocks
      split
      · exact .inl ⟨_, rfl, rfl⟩
      · split
        · next first rest _ =>
          split
          · next hall => exact .inr ⟨_, hparse, List.all_eq_true.1 hall, rfl⟩
          · exact .inl ⟨_, rfl, hfenced⟩
        · exact .inl ⟨_, rfl, hfenced⟩
    · exact .inl ⟨_, rfl, rfl⟩

/-- A block of a fence is read again.  A message of a list was written to become a block. -/
theorem echoes_fence {kind : FenceKind} {content : List Char} {b : Block}
    (hcontent : ∀ line ∈ Text.lines content, ¬ Closes line)
    (h : b ∈ interpret kind (String.ofList content))
    (hwhole : ∀ message raw, b = .update message raw → message.WholeNumbers) : b.Echoes := by
  rcases interpret_cases kind content with
    ⟨b', hblocks, hsource⟩ | ⟨items, hparse, henvelopes, hblocks⟩
  · rw [hblocks] at h
    obtain rfl := List.mem_singleton.1 h
    rw [Block.Echoes, hsource, blocks_enclose kind (not_closes_rawOf hcontent), interpret_rawOf,
      hblocks]
  · rw [hblocks] at h
    obtain ⟨message, hmem, rfl⟩ := List.mem_map.1 h
    obtain ⟨hwritable, hdepth⟩ := Json.writable_of_parse_array hparse hmem (hwhole _ _ rfl)
    rw [Block.Echoes, Block.source, FenceKind.enclose_json]
    exact blocks_fenced (Json.written_render message hwritable) hwritable hdepth
      (henvelopes message hmem)

/-- The blocks of a tile are read again. -/
theorem Part.echoes {part : Part} (hpart : part.Proper {}) {text : List Char}
    (hlines : part.lines <:+: Text.lines text) {b : Block} (hb : b ∈ part.blocks {})
    (hwhole : ∀ message raw, b = .update message raw → message.WholeNumbers) : b.Echoes := by
  cases part with
  | prose run =>
    rw [Part.blocks, proseBlocks, String.toList_ofList] at hb
    split at hb
    · next hprose =>
      obtain rfl := List.mem_singleton.1 hb
      have hrun : Text.lines run.flatten = run := Text.lines_flatten_of_infix hlines
      refine echoes_prose ?_ hprose
      rw [hrun]
      exact hpart
    · cases hb
  | fence kind opener content closer =>
    have hcontent : Text.lines content.flatten = content :=
      Text.lines_flatten_of_infix (List.IsInfix.trans ⟨[opener], closer.toList, rfl⟩ hlines)
    have hmem : b ∈ interpret kind (String.ofList content.flatten) := by
      cases closer with
      | some closer => exact hb
      | none =>
        rw [Part.blocks, Reader.Run.atEnd] at hb
        split at hb
        · cases hb
        · exact hb
    refine echoes_fence ?_ hmem hwhole
    rw [hcontent]
    exact hpart

open Reader

/-- **Each block is read again from its own text.**  Whatever text is read with the usual options, a
block of it that is written back as text, if there is room for that, is read as this block and
nothing else.  A surface update is required to have whole numbers only. -/
theorem block_read_again {text : String} (hroom : text.utf8ByteSize ≤ Options.maxBytes {}) :
    ∃ last : Reader, (new {}).Leads [.push text, .finish] last ∧
      ∀ b ∈ last.blocks, b.source.utf8ByteSize ≤ Options.maxBytes {} →
        (∀ message raw, b = .update message raw → message.WholeNumbers) →
        ∃ again : Reader, (new {}).Leads [.push b.source, .finish] again ∧ again.blocks = [b] := by
  refine ⟨_, leads_text hroom, fun b hb hsource hwhole => ⟨_, leads_text hsource, ?_⟩⟩
  obtain ⟨parts, htiling, hlines⟩ := exists_tiling {} (Text.lines text.toList)
  rw [htiling.blocks_close hlines] at hb
  obtain ⟨part, hpart, hb⟩ := List.mem_flatMap.1 hb
  exact Part.echoes (htiling.proper part hpart) (hlines ▸ Part.lines_infix hpart) hb hwhole

/-- A list of one message, which is written without the list. -/
theorem block_read_again_list :
    let message := Json.object [("surfaceUpdate", .number (.whole ⟨1, by decide, by decide⟩))]
    let b := Block.update message "\x7b\"surfaceUpdate\":1\x7d"
    ∃ last : Reader,
      (new {}).Leads [.push (fenced "[\x7b\"surfaceUpdate\":1\x7d]"), .finish] last ∧
      b ∈ last.blocks ∧ ∃ again : Reader,
        (new {}).Leads [.push (fenced "\x7b\"surfaceUpdate\":1\x7d"), .finish] again ∧
        again.blocks = [b] := by
  intro message b
  have hwritable : (Json.array [message]).Writable := ⟨⟨by decide, ⟨_, rfl⟩, trivial⟩, trivial⟩
  have hwritten := Json.written_render _ hwritable
  have hrender : String.ofList (Json.array [message]).render = "[\x7b\"surfaceUpdate\":1\x7d]" := by
    decide
  have hraw : Text.dropEndWhile Text.isBreak ((Json.array [message]).render ++ ['\n']) =
      (Json.array [message]).render := by decide
  have hblocks :
      interpret .json (String.ofList ((Json.array [message]).render ++ ['\n'])) = [b] := by
    simp only [interpret, String.toList_ofList, hraw, jsonBlocks,
      hwritten.parse_eq hwritable (by decide)]
    rfl
  have hroom : (fenced "[\x7b\"surfaceUpdate\":1\x7d]").utf8ByteSize ≤ Options.maxBytes {} := by
    decide
  obtain ⟨last, hlast, hall⟩ := block_read_again hroom
  have hb : b ∈ last.blocks := by
    have hone := blocks_enclose .json (not_closes_written hwritten)
    rw [hblocks, FenceKind.enclose_json, hrender] at hone
    rw [hlast.2.symm.trans (leads_text hroom).2, hone]
    exact List.mem_singleton_self b
  obtain ⟨again, hagain, hecho⟩ := hall b hb (by decide) fun _ _ h =>
    (Block.update.inj h).1 ▸ ⟨⟨_, rfl⟩, trivial⟩
  exact ⟨last, hlast, hb, again, FenceKind.enclose_json _ ▸ hagain, hecho⟩

end AgentSurface.Stream
