import AgentSurface.Proofs.Stream.Delivery
import AgentSurface.Proofs.Stream.Emission
import AgentSurface.Stream.Drive

/-!
# Stream — what a drive reports

A drive takes chunks for as long as it is not told to stop and the reader does not refuse one, and
then it halts.  `Runs` has the steps of the first part and `Halts` the ways of the second; that
every drive is one and then the other is `exists_run`.

* `drive_reports`: a drive of a source that ends reports every block once and ends once, and the
  blocks of a new reader are those of the calls that it was driven by.
-/

namespace AgentSurface.Stream

/-! ### Events -/

/-- The event comes before the end of a drive. -/
inductive Event.IsReport : Event → Prop where
  | block (b : Block) : IsReport (.block b)
  | pending (p : Pending) : IsReport (.pending p)

/-- The block that an event reports. -/
def Event.block? : Event → Option Block
  | .block b => some b
  | .pending _ | .failed _ | .finished _ _ => none

/-- The blocks that the events report, in order. -/
def reported (events : List Event) : List Block := events.filterMap Event.block?

@[simp] theorem reported_nil : reported [] = [] := rfl

@[simp] theorem reported_append (xs ys : List Event) :
    reported (xs ++ ys) = reported xs ++ reported ys :=
  List.filterMap_append

@[simp] theorem reported_blocks (blocks : List Block) :
    reported (blocks.map Event.block) = blocks := by
  rw [reported, List.filterMap_map]
  exact List.filterMap_some

@[simp] theorem reported_pending (view : Pending) : reported [.pending view] = [] := rfl

theorem isReport_blocks (blocks : List Block) : ∀ e ∈ blocks.map Event.block, e.IsReport := by
  intro e he
  obtain ⟨b, -, rfl⟩ := List.mem_map.1 he
  exact .block b

/-- The pending view is no block. -/
theorem reported_chunkEvents (blocks : List Block) (last now : Option Pending) :
    reported (chunkEvents blocks last now) = blocks := by
  unfold chunkEvents
  split
  · split <;> simp
  · simp

theorem isReport_chunkEvents (blocks : List Block) (last now : Option Pending) :
    ∀ e ∈ chunkEvents blocks last now, e.IsReport := by
  refine List.forall_mem_append.2 ⟨isReport_blocks blocks, ?_⟩
  split
  · next view =>
    split
    · simp
    · simpa using Event.IsReport.pending view
  · simp

/-- A chunk that is not refused had room, and is fed. -/
theorem Reader.of_push_ok {r next : Reader} {piece : String} {blocks : List Block}
    (hr : r.phase = .streaming) (h : r.push piece = (.ok blocks, next)) :
    r.buffer.utf8ByteSize + piece.utf8ByteSize ≤ r.options.maxBytes ∧
      next = r.feedAll piece.toList := by
  have heffect : (Call.push piece).Effect r (.ok blocks) next := Call.effect_of_eq h
  cases heffect with
  | fed _ hcall hroom =>
    cases hcall
    exact ⟨hroom, (feedAll_holding r _ r.decoder).symm⟩
  | ignored haborted => exact nomatch hr.symm.trans haborted

/-! ### Taking chunks -/

/-- A drive under way: how far it has come, the view that it had last, and its reader. -/
structure Point where
  progress : Progress
  view : Option Pending
  reader : Reader

/-- Before the first item. -/
def Point.start (r : Reader) : Point := ⟨{}, none, r⟩

/-- The chunk was taken, and the reader is `next` behind it. -/
def Point.take (p : Point) (blocks : List Block) (next : Reader) : Point where
  progress :=
    ⟨p.progress.items + 1, p.progress.events + (chunkEvents blocks p.view next.pending).length⟩
  view := next.pending
  reader := next

/-- From the one point the chunks lead to the other with these events: before none of them is the
drive told to stop, and none of them is refused. -/
inductive Runs (stop : Progress → Bool) : Point → List String → List Event → Point → Prop where
  | nil (p : Point) : Runs stop p [] [] p
  | cons {p last : Point} {text : String} {rest : List String} {blocks : List Block}
    {next : Reader} {events : List Event} (hgo : stop p.progress = false)
    (hpush : p.reader.push text = (.ok blocks, next))
    (hrest : Runs stop (p.take blocks next) rest events last) :
    Runs stop p (text :: rest) (chunkEvents blocks p.view next.pending ++ events) last

/-- From the point the drive does not go on to another one: these are the items left, the events
behind those of the chunks, and the last event. -/
inductive Halts (stop : Progress → Bool) (p : Point) : List Item → List Event → Event → Prop where
  | cancelled {blocks : List Block} {next : Reader} (rest : List Item)
    (hstop : stop p.progress = true) (habort : p.reader.abort = (blocks, next)) :
    Halts stop p rest (blocks.map .block) (.finished .cancelled next.blocks)
  | completed {blocks : List Block} {next : Reader} (hgo : stop p.progress = false)
    (hfinish : p.reader.finish = (.ok blocks, next)) :
    Halts stop p [] (blocks.map .block) (.finished .completed next.blocks)
  | ended {refusal : Refusal} {next : Reader} (hgo : stop p.progress = false)
    (hfinish : p.reader.finish = (.error refusal, next)) :
    Halts stop p [] [] (.failed refusal.message)
  | failed (message : String) (rest : List Item) (hgo : stop p.progress = false) :
    Halts stop p (.failure message :: rest) [] (.failed message)
  | refused {text : String} {refusal : Refusal} {next : Reader} (rest : List Item)
    (hgo : stop p.progress = false) (hpush : p.reader.push text = (.error refusal, next)) :
    Halts stop p (.chunk text :: rest) [] (.failed refusal.message)

variable {stop : Progress → Bool}

/-- A drive that is told to stop looks at no item. -/
theorem driveFrom_of_stop {p : Point} (hstop : stop p.progress = true) (ending : Ending)
    (items : List Item) :
    driveFrom stop ending p.progress p.view p.reader items =
      { events := cancelEvents p.reader } := by
  cases items with
  | nil => simp [driveFrom, hstop]
  | cons item rest => cases item <;> simp [driveFrom, hstop]

/-- A drive takes some chunks and halts. -/
theorem exists_run (stop : Progress → Bool) (p : Point) (items : List Item) :
    ∃ chunks rest events halt told last, items = chunks.map .chunk ++ rest ∧
      Runs stop p chunks events halt ∧ Halts stop halt rest told last ∧
      driveFrom stop .closed p.progress p.view p.reader items =
        { events := events ++ (told ++ [last]) } := by
  -- A chunk that is taken leads to another point, from which the rest is driven; all else halts.
  induction items generalizing p with
  | nil =>
    cases hstop : stop p.progress with
    | true => exact ⟨[], [], [], p, _, _, rfl, .nil p, .cancelled [] hstop rfl,
        driveFrom_of_stop hstop .closed []⟩
    | false =>
      cases hfinish : p.reader.finish with
      | mk answer next =>
        cases answer with
        | ok blocks => exact ⟨[], [], [], p, _, _, rfl, .nil p, .completed hstop hfinish, by
            simp [driveFrom, hstop, closeEvents, hfinish]⟩
        | error refusal => exact ⟨[], [], [], p, _, _, rfl, .nil p, .ended hstop hfinish, by
            simp [driveFrom, hstop, closeEvents, hfinish]⟩
  | cons item rest ih =>
    cases hstop : stop p.progress with
    | true => exact ⟨[], _, [], p, _, _, rfl, .nil p, .cancelled _ hstop rfl,
        driveFrom_of_stop hstop .closed _⟩
    | false =>
      cases item with
      | failure message => exact ⟨[], _, [], p, _, _, rfl, .nil p, .failed message rest hstop, by
          simp [driveFrom, hstop]⟩
      | chunk text =>
        cases hpush : p.reader.push text with
        | mk answer next =>
          cases answer with
          | error refusal =>
            exact ⟨[], _, [], p, _, _, rfl, .nil p, .refused rest hstop hpush, by
              simp [driveFrom, hstop, hpush]⟩
          | ok blocks =>
            obtain ⟨chunks, left, events, halt, told, last, rfl, hruns, hhalts, hdrive⟩ :=
              ih (p.take blocks next)
            refine ⟨text :: chunks, left, _, halt, told, last, rfl, .cons hstop hpush hruns,
              hhalts, ?_⟩
            simp only [Point.take] at hdrive
            simp [driveFrom, hstop, hpush, hdrive, Trace.after]

namespace Runs

variable {p last : Point} {chunks : List String} {events : List Event}

/-- The reader took the chunks, and nothing else. -/
theorem leads (h : Runs stop p chunks events last) :
    p.reader.Leads (chunks.map .push) last.reader := by
  induction h with
  | nil p => exact .nil _
  | cons _ hpush _ ih => exact .cons hpush ih

/-- The events report the blocks that the chunks settled. -/
theorem blocks_eq (h : Runs stop p chunks events last) :
    last.reader.blocks = p.reader.blocks ++ reported events := by
  induction h with
  | nil p => simp
  | cons _ hpush _ ih =>
    rw [ih, reported_append, reported_chunkEvents, ← List.append_assoc]
    exact congrArg (· ++ _) (Call.blocks_of_ok (.push _) hpush)

theorem isReport (h : Runs stop p chunks events last) : ∀ e ∈ events, e.IsReport := by
  induction h with
  | nil p => simp
  | cons _ _ _ ih => exact List.forall_mem_append.2 ⟨isReport_chunkEvents _ _ _, ih⟩

/-- The chunks are taken as one text, for which there is room. -/
theorem reader_eq (h : Runs stop p chunks events last) (hr : p.reader.phase = .streaming)
    (hroom : p.reader.buffer.utf8ByteSize ≤ p.reader.options.maxBytes) :
    last.reader = p.reader.feedAll (String.join chunks).toList ∧
      p.reader.buffer.utf8ByteSize + (String.join chunks).utf8ByteSize ≤
        p.reader.options.maxBytes := by
  induction h with
  | nil p => exact ⟨rfl, by simpa using hroom⟩
  | @cons p last text rest blocks next events _ hpush _ ih =>
    obtain ⟨hfits, rfl⟩ := Reader.of_push_ok hr hpush
    obtain ⟨hlast, hrest⟩ := ih (by simpa [Point.take] using hr) (by
      rw [Point.take, Reader.buffer_feedAll, String.ofList_toList, String.utf8ByteSize_append,
        Reader.options_feedAll]
      exact hfits)
    rw [Point.take, Reader.buffer_feedAll, String.ofList_toList, String.utf8ByteSize_append,
      Reader.options_feedAll] at hrest
    rw [String.join_cons, String.toList_append, Reader.feedAll_append,
      String.utf8ByteSize_append]
    exact ⟨hlast, by omega⟩

end Runs

/-! ### How a drive ends -/

/-- The chunks are what a drive of a new reader takes before this point. -/
def Taken (stop : Progress → Bool) (options : Options) (chunks : List String) (p : Point) : Prop :=
  ∃ events, Runs stop (.start (.new options)) chunks events p

/-- How the drive of a new reader ends, when `told` are the events before the last one.  It is not
told to stop before the point at which it halts. -/
inductive Outcome (stop : Progress → Bool) (options : Options) (items : List Item)
    (told : List Event) : Event → Prop where
  /-- The blocks are those of all chunks in a single piece, and of their end. -/
  | completed {chunks : List String} {p : Point} {last : Reader}
    (hitems : items = chunks.map .chunk) (htaken : Taken stop options chunks p)
    (hgo : stop p.progress = false)
    (hlast : (Reader.new options).Leads [.push (String.join chunks), .finish] last)
    (htold : reported told = last.blocks) :
    Outcome stop options items told (.finished .completed last.blocks)
  /-- The blocks are those of the chunks before, and those that stopping settles. -/
  | cancelled {chunks : List String} {rest : List Item} {p : Point} {last : Reader}
    (hitems : items = chunks.map .chunk ++ rest) (htaken : Taken stop options chunks p)
    (hstop : stop p.progress = true)
    (hlast : (Reader.new options).Leads (chunks.map .push ++ [.abort]) last)
    (htold : reported told = last.blocks) :
    Outcome stop options items told (.finished .cancelled last.blocks)
  /-- The source failed: the blocks are those of the chunks before. -/
  | failed {chunks : List String} {message : String} {rest : List Item} {p : Point}
    (hitems : items = chunks.map .chunk ++ .failure message :: rest)
    (htaken : Taken stop options chunks p) (hgo : stop p.progress = false)
    (hlast : (Reader.new options).Leads (chunks.map .push) p.reader)
    (htold : reported told = p.reader.blocks) :
    Outcome stop options items told (.failed message)
  /-- The reader refused a chunk: the blocks are those of the chunks before. -/
  | refused {chunks : List String} {text : String} {rest : List Item} {p : Point}
    {refusal : Refusal} (hitems : items = chunks.map .chunk ++ .chunk text :: rest)
    (htaken : Taken stop options chunks p) (hgo : stop p.progress = false)
    (hlast : (Reader.new options).Leads (chunks.map .push) p.reader)
    (hrefused : (p.reader.push text).1 = .error refusal)
    (htold : reported told = p.reader.blocks) :
    Outcome stop options items told (.failed refusal.message)

/-- Behind the point come the blocks that stopping or the end settles, and the end of the drive. -/
theorem Halts.ends {p : Point} {rest : List Item} {told : List Event} {last : Event}
    (h : Halts stop p rest told last) :
    (∀ e ∈ told, e.IsReport) ∧ ((∃ message, last = .failed message) ∨
      ∃ reason, last = .finished reason (p.reader.blocks ++ reported told)) := by
  cases h with
  | @cancelled blocks next rest hstop habort =>
    have hcall : Call.abort.on p.reader = (.ok blocks, next) := by rw [Call.on, habort]
    refine ⟨isReport_blocks _, .inr ⟨.cancelled, ?_⟩⟩
    rw [reported_blocks, Call.blocks_of_ok .abort hcall]
  | completed hgo hfinish =>
    refine ⟨isReport_blocks _, .inr ⟨.completed, ?_⟩⟩
    rw [reported_blocks, Call.blocks_of_ok .finish hfinish]
  | ended => exact ⟨by simp, .inl ⟨_, rfl⟩⟩
  | failed => exact ⟨by simp, .inl ⟨_, rfl⟩⟩
  | refused => exact ⟨by simp, .inl ⟨_, rfl⟩⟩

/-- A run of a new reader and the way it halts are one of the outcomes. -/
theorem Runs.outcome {options : Options} {chunks : List String} {events told : List Event}
    {p : Point} {rest : List Item} {last : Event}
    (hruns : Runs stop (.start (.new options)) chunks events p)
    (hhalts : Halts stop p rest told last) :
    Outcome stop options (chunks.map .chunk ++ rest) (events ++ told) last := by
  have htaken : Taken stop options chunks p := ⟨events, hruns⟩
  have hpushed : (Reader.new options).Leads (chunks.map .push) p.reader := hruns.leads
  have hblocks : p.reader.blocks = reported events := hruns.blocks_eq
  cases hhalts with
  | @cancelled blocks next rest hstop habort =>
    have hcall : Call.abort.on p.reader = (.ok blocks, next) := by rw [Call.on, habort]
    refine .cancelled rfl htaken hstop (hpushed.append (.cons hcall (.nil next))) ?_
    rw [reported_append, reported_blocks, ← hblocks]
    exact (Call.blocks_of_ok .abort hcall).symm
  | @completed blocks next hgo hfinish =>
    obtain ⟨hreader, hroom⟩ := hruns.reader_eq rfl (by simp [Point.start])
    have hone : (Reader.new options).Leads [.push (String.join chunks)] p.reader := by
      rw [hreader]
      simpa [Point.start] using Reader.leads_pieces (r := .new options) rfl [String.join chunks]
        (by simpa [Point.start] using hroom)
    have hcall : Call.finish.on p.reader = (.ok blocks, next) := hfinish
    refine .completed (by simp) htaken hgo (hone.append (.cons hcall (.nil next))) ?_
    rw [reported_append, reported_blocks, ← hblocks]
    exact (Call.blocks_of_ok .finish hfinish).symm
  | @ended refusal next hgo hfinish =>
    -- A reader that only took chunks is not finished.
    obtain ⟨hreader, -⟩ := hruns.reader_eq rfl (by simp [Point.start])
    obtain ⟨blocks, hok⟩ := Reader.finish_eq (r := p.reader) (by rw [hreader]; simp [Point.start])
    rw [hok] at hfinish
    cases hfinish
  | failed message rest hgo =>
    exact .failed rfl htaken hgo hpushed (by simp [hblocks])
  | refused rest hgo hpush =>
    exact .refused rfl htaken hgo hpushed (by rw [hpush]) (by simp [hblocks])

/-- **A drive reports every block once and ends once.**  The events of a drive of a source that
ends are reports and one last event, which says that the drive failed, or that it finished with the
blocks before it and then those reported.  The blocks reported by the drive of a new reader are
those of the calls that it came to: all chunks in a single piece and their end, the chunks before
it was told to stop and stopping, or only the chunks before a failure. -/
theorem drive_reports (stop : Progress → Bool) (r : Reader) (items : List Item) :
    ∃ told last, drive stop .closed r items = { events := told ++ [last] } ∧
      (∀ e ∈ told, e.IsReport) ∧
      ((∃ message, last = .failed message) ∨
        ∃ reason, last = .finished reason (r.blocks ++ reported told)) ∧
      ∀ options, r = .new options → Outcome stop options items told last := by
  obtain ⟨chunks, rest, events, halt, told, last, rfl, hruns, hhalts, hdrive⟩ :=
    exists_run stop (.start r) items
  obtain ⟨hreports, hlast⟩ := hhalts.ends
  refine ⟨events ++ told, last, by rw [List.append_assoc]; exact hdrive,
    List.forall_mem_append.2 ⟨hruns.isReport, hreports⟩, ?_, ?_⟩
  · rw [reported_append, ← List.append_assoc]
    rwa [hruns.blocks_eq] at hlast
  · rintro options rfl
    exact hruns.outcome hhalts

/-- The fence that is open when the drive is told to stop was shown, and is no block. -/
theorem drive_reports_stopped :
    let stop : Progress → Bool := fun progress => decide (2 ≤ progress.items)
    let items : List Item := [.chunk "Hi\n", .chunk "\x60\x60\x60jsx\n<A/>"]
    drive stop .closed (.new {}) items =
        { events := [.pending (.text "Hi"), .block (.text "Hi"), .pending (.fence .jsx "<A/>" none),
          .finished .cancelled [.text "Hi"]] } ∧
      ∃ told last, drive stop .closed (.new {}) items = { events := told ++ [last] } ∧
        (∀ e ∈ told, e.IsReport) ∧ Outcome stop {} items told last := by
  refine ⟨rfl, ?_⟩
  obtain ⟨told, last, hdrive, hreports, -, houtcome⟩ := drive_reports
    (fun progress => decide (2 ≤ progress.items)) (.new {})
    [.chunk "Hi\n", .chunk "\x60\x60\x60jsx\n<A/>"]
  exact ⟨told, last, hdrive, hreports, houtcome {} rfl⟩

end AgentSurface.Stream
