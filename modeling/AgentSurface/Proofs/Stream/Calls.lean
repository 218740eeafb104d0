import AgentSurface.Stream.Reader

/-!
# Stream — calls of a reader, one after the other

A `Call` is what a reader can be told; `Reader.after` and `Reader.answers` say where a list of calls
leads and what they answer.

The second part has one lemma for each call.  Until a reader is finished, `sync_eq` and
`pushBytes_eq` come to a push of the new text; while it is streaming, `push_eq` leads to
`Reader.feedAll` of this text, and `finish_eq` to `Reader.close` behind what was held back.  Feeding
changes the text received, the run and the blocks, and nothing else.
-/

namespace AgentSurface.Stream

/-- What a reader can be told. -/
inductive Call where
  | push (piece : String)
  | pushBytes (bytes : List UInt8)
  | sync (full : String)
  | finish
  | abort

/-- The call gives a piece of the text. -/
def Call.GivesText : Call → Prop
  | .push _ | .pushBytes _ | .sync _ => True
  | .finish | .abort => False

/-- Tell a reader; `abort` is never refused. -/
def Call.on (call : Call) (r : Reader) : Answer × Reader :=
  match call with
  | .push piece => r.push piece
  | .pushBytes bytes => r.pushBytes bytes
  | .sync full => r.sync full
  | .finish => r.finish
  | .abort => (.ok r.abort.1, r.abort.2)

namespace Reader

variable {r : Reader}

/-- The reader behind some calls. -/
def after (r : Reader) (calls : List Call) : Reader :=
  calls.foldl (fun r call => (call.on r).2) r

/-- The answers of some calls, in order. -/
def answers (r : Reader) : List Call → List Answer
  | [] => []
  | call :: rest => (call.on r).1 :: answers (call.on r).2 rest

@[simp] theorem after_nil (r : Reader) : r.after [] = r := rfl

@[simp] theorem after_cons (r : Reader) (call : Call) (rest : List Call) :
    r.after (call :: rest) = (call.on r).2.after rest := rfl

@[simp] theorem answers_nil (r : Reader) : r.answers [] = [] := rfl

@[simp] theorem answers_cons (r : Reader) (call : Call) (rest : List Call) :
    r.answers (call :: rest) = (call.on r).1 :: (call.on r).2.answers rest := rfl

/-- Calls in two groups leave the reader where the second group leaves it behind the first. -/
theorem after_append (r : Reader) (xs ys : List Call) :
    r.after (xs ++ ys) = (r.after xs).after ys := by
  simp [after]

/-- The answers to two groups of calls are those to the first and then those to the second. -/
theorem answers_append (r : Reader) (xs ys : List Call) :
    r.answers (xs ++ ys) = r.answers xs ++ (r.after xs).answers ys := by
  induction xs generalizing r with
  | nil => rfl
  | cons call rest ih => simp [ih]

/-- No call is refused, and the calls lead to `next`. -/
def Leads (r : Reader) (calls : List Call) (next : Reader) : Prop :=
  (∀ answer ∈ r.answers calls, answer.isOk) ∧ r.after calls = next

theorem Leads.nil (r : Reader) : r.Leads [] r := ⟨by simp, rfl⟩

/-- One call that is answered puts itself in front of a run without refusal. -/
theorem Leads.cons {call : Call} {blocks : List Block} {mid next : Reader} {rest : List Call}
    (h : call.on r = (.ok blocks, mid)) (hrest : mid.Leads rest next) :
    r.Leads (call :: rest) next := by
  refine ⟨fun answer ha => ?_, by rw [after_cons, h]; exact hrest.2⟩
  rw [answers_cons, h, List.mem_cons] at ha
  rcases ha with rfl | ha
  · rfl
  · exact hrest.1 answer ha

/-- Runs without refusal may be joined. -/
theorem Leads.append {xs ys : List Call} {mid next : Reader} (hx : r.Leads xs mid)
    (hy : mid.Leads ys next) : r.Leads (xs ++ ys) next := by
  refine ⟨fun answer ha => ?_, by rw [after_append, hx.2, hy.2]⟩
  rw [answers_append, hx.2, List.mem_append] at ha
  exact ha.elim (hx.1 answer) (hy.1 answer)

/-! ### Before the text, and bytes held back -/

@[simp] theorem options_new (options : Options) : (new options).options = options := rfl

@[simp] theorem phase_new (options : Options) : (new options).phase = .streaming := rfl

@[simp] theorem buffer_new (options : Options) : (new options).buffer = "" := rfl

/-- The reader with other bytes held back. -/
def holding (r : Reader) (d : Text.Utf8.Decoder) : Reader := { r with decoder := d }

@[simp] theorem options_holding (r : Reader) (d : Text.Utf8.Decoder) :
    (r.holding d).options = r.options := rfl

@[simp] theorem phase_holding (r : Reader) (d : Text.Utf8.Decoder) :
    (r.holding d).phase = r.phase := rfl

@[simp] theorem buffer_holding (r : Reader) (d : Text.Utf8.Decoder) :
    (r.holding d).buffer = r.buffer := rfl

@[simp] theorem holding_holding (r : Reader) (d d' : Text.Utf8.Decoder) :
    (r.holding d).holding d' = r.holding d' := rfl

/-! ### What a line changes -/

@[simp] theorem options_takeLine (r : Reader) (line : String) :
    (r.takeLine line).options = r.options := by
  unfold takeLine; split <;> split <;> rfl

@[simp] theorem line_takeLine (r : Reader) (line : String) : (r.takeLine line).line = r.line := by
  unfold takeLine; split <;> split <;> rfl

@[simp] theorem phase_takeLine (r : Reader) (line : String) :
    (r.takeLine line).phase = r.phase := by
  unfold takeLine; split <;> split <;> rfl

/-- The bytes held back have no part in reading a line. -/
theorem takeLine_holding (r : Reader) (line : String) (d : Text.Utf8.Decoder) :
    (r.holding d).takeLine line = (r.takeLine line).holding d := by
  unfold takeLine holding; dsimp only; split <;> split <;> rfl

/-- A line goes behind the lines before it, and nothing of them is lost. -/
theorem text_takeLine (r : Reader) (line : String) :
    (r.takeLine line).settled ++ (r.takeLine line).run.text = r.settled ++ r.run.text ++ line := by
  unfold takeLine
  split <;> split <;> simp [*, Run.text, String.append_assoc]

/-! ### What a character changes -/

@[simp] theorem options_feed (r : Reader) (c : Char) : (r.feed c).options = r.options := by
  unfold feed; split <;> simp

@[simp] theorem phase_feed (r : Reader) (c : Char) : (r.feed c).phase = r.phase := by
  unfold feed; split <;> simp

/-- The bytes held back play no part in reading a character. -/
theorem feed_holding (r : Reader) (c : Char) (d : Text.Utf8.Decoder) :
    (r.holding d).feed c = (r.feed c).holding d := by
  unfold feed
  split
  · exact takeLine_holding { r with line := "" } _ d
  · rfl

/-- Every character read is kept at the end of the buffer. -/
theorem buffer_feed (r : Reader) (c : Char) : (r.feed c).buffer = r.buffer.push c := by
  unfold feed
  split
  · rw [buffer, line_takeLine, text_takeLine]
    simp [buffer, String.append_assoc, ← String.toList_inj]
  · simp [buffer, ← String.toList_inj]

/-! ### What a text changes -/

@[simp] theorem feedAll_nil (r : Reader) : r.feedAll [] = r := rfl

/-- Reading a text in two pieces is reading it whole. -/
theorem feedAll_append (r : Reader) (s t : List Char) :
    r.feedAll (s ++ t) = (r.feedAll s).feedAll t := by
  simp [feedAll]

@[simp] theorem options_feedAll (r : Reader) (s : List Char) :
    (r.feedAll s).options = r.options := by
  induction s generalizing r with
  | nil => rfl
  | cons c rest ih => exact (ih (r.feed c)).trans (options_feed r c)

@[simp] theorem phase_feedAll (r : Reader) (s : List Char) : (r.feedAll s).phase = r.phase := by
  induction s generalizing r with
  | nil => rfl
  | cons c rest ih => exact (ih (r.feed c)).trans (phase_feed r c)

/-- The bytes held back play no part in reading a text. -/
theorem feedAll_holding (r : Reader) (s : List Char) (d : Text.Utf8.Decoder) :
    (r.holding d).feedAll s = (r.feedAll s).holding d := by
  induction s generalizing r with
  | nil => rfl
  | cons c rest ih =>
    show ((r.holding d).feed c).feedAll rest = _
    rw [feed_holding]
    exact ih (r.feed c)

@[simp] theorem decoder_feedAll (r : Reader) (s : List Char) :
    (r.feedAll s).decoder = r.decoder := by
  show ((r.holding r.decoder).feedAll s).decoder = _
  rw [feedAll_holding]
  rfl

/-- A text that was read is kept at the end of the buffer. -/
theorem buffer_feedAll (r : Reader) (s : List Char) :
    (r.feedAll s).buffer = r.buffer ++ String.ofList s := by
  induction s generalizing r with
  | nil => simp
  | cons c rest ih =>
    show ((r.feed c).feedAll rest).buffer = _
    rw [ih, buffer_feed]
    simp [← String.toList_inj]

/-- A text without a line feed only makes the open line longer. -/
theorem feedAll_of_not_mem (r : Reader) {s : List Char} (h : '\n' ∉ s) :
    r.feedAll s = { r with line := r.line ++ String.ofList s } := by
  induction s generalizing r with
  | nil => simp
  | cons c rest ih =>
    obtain ⟨hc, hrest⟩ := List.ne_and_not_mem_of_not_mem_cons h
    show (r.feed c).feedAll rest = _
    have hfeed : r.feed c = { r with line := r.line.push c } := if_neg (Ne.symm hc)
    rw [hfeed, ih _ hrest]
    simp [← String.toList_inj]

/-! ### What is fed, and what is closed -/

theorem received_eq (r : Reader) : r.received = r.buffer.utf8ByteSize := by
  unfold received buffer Run.text
  cases r.run <;> simp [Nat.add_assoc]

/-- A piece for which there is room is fed. -/
theorem push_eq (hr : r.phase = .streaming) (piece : String)
    (hroom : r.buffer.utf8ByteSize + piece.utf8ByteSize ≤ r.options.maxBytes) :
    ∃ blocks, r.push piece = (.ok blocks, r.feedAll piece.toList) := by
  have h : ¬ r.options.maxBytes < r.received + piece.utf8ByteSize := by
    rw [received_eq]; omega
  simp only [push, hr, if_neg h]
  exact ⟨_, rfl⟩

/-- A string with another in front of it is that one and a rest. -/
theorem exists_append_of_prefix {a b : String} (h : a.toList <+: b.toList) :
    ∃ rest, b = a ++ rest := by
  obtain ⟨rest, hrest⟩ := h
  exact ⟨String.ofList rest, by simp [← String.toList_inj, hrest]⟩

/-- The whole text so far is its new part. -/
theorem sync_eq (hr : r.phase ≠ .finished) {full rest : String} (h : full = r.buffer ++ rest) :
    r.sync full = r.push rest := by
  subst h
  cases hphase : r.phase with
  | finished => exact absurd hphase hr
  | aborted | streaming => simp [sync, hphase]

/-- Bytes are the text that they settle. -/
theorem pushBytes_eq (hr : r.phase ≠ .finished) (bytes : List UInt8) :
    r.pushBytes bytes =
      (r.holding (r.decoder.decode bytes).2).push (r.decoder.decode bytes).1 := by
  cases hphase : r.phase with
  | finished => exact absurd hphase hr
  | aborted | streaming => simp [pushBytes, hphase, holding]

/-- The text is over: the open line is read, and the run settled. -/
def close (r : Reader) : Reader :=
  let read := if r.line.isEmpty then r else takeLine { r with line := "" } r.line
  { settle read (Run.atEnd r.options read.run) with phase := .finished }

/-- The text that the bytes held back are read as. -/
def heldBack (r : Reader) : List Char := r.decoder.flush.1.toList

/-- What is held back of an open line has no line break in it. -/
theorem not_mem_heldBack (r : Reader) : '\n' ∉ r.heldBack := by
  unfold heldBack Text.Utf8.Decoder.flush
  split <;> simp [Text.Utf8.replacement]

/-- What is held back is fed as it is, and then the text is over. -/
theorem finish_eq (hr : r.phase = .streaming) :
    ∃ blocks, r.finish = (.ok blocks, ((r.feedAll r.heldBack).holding ⟨[]⟩).close) := by
  have hlast : r.finish.2 = ((r.feedAll r.heldBack).holding ⟨[]⟩).close := by
    rw [feedAll_of_not_mem r r.not_mem_heldBack, heldBack, String.ofList_toList]
    simp only [finish, hr, close, holding]
    split
    · next hline =>
      have hempty : r.line ++ r.decoder.flush.1 = r.line := by
        simp only [String.isEmpty_iff, String.append_eq_empty_iff] at hline
        simp [hline]
      rw [hempty]
      rfl
    · rfl
  rw [← hlast]
  simp only [finish, hr]
  exact ⟨_, rfl⟩

/-- With nothing held back, the text is over where it is. -/
theorem leads_finish (hr : r.phase = .streaming) (hd : r.decoder = ⟨[]⟩) :
    r.Leads [.finish] r.close := by
  obtain ⟨blocks, hfinish⟩ := finish_eq hr
  have hlast : (r.feedAll r.heldBack).holding ⟨[]⟩ = r := by
    rw [heldBack, hd]
    simp [Text.Utf8.Decoder.flush, holding, ← hd]
  rw [hlast] at hfinish
  exact .cons hfinish (.nil _)

/-- The bytes held back have no part in what the end of the text settles. -/
theorem close_holding (r : Reader) (d : Text.Utf8.Decoder) :
    (r.holding d).close = r.close.holding d := by
  by_cases hline : r.line.isEmpty = true
  · have hline' : (r.holding d).line.isEmpty = true := hline
    rw [close, close, if_pos hline, if_pos hline']
    rfl
  · have hline' : ¬ (r.holding d).line.isEmpty = true := hline
    have htake : takeLine { r.holding d with line := "" } (r.holding d).line =
        (takeLine { r with line := "" } r.line).holding d :=
      takeLine_holding { r with line := "" } r.line d
    rw [close, close, if_neg hline, if_neg hline', htake]
    rfl

@[simp] theorem buffer_settle (r : Reader) (blocks : List Block) :
    (settle r blocks).buffer = r.buffer := by
  simp [settle, buffer, Run.text]

/-- The end of the text adds nothing to it. -/
theorem buffer_close (r : Reader) : r.close.buffer = r.buffer := by
  have hphase : ∀ r : Reader, { r with phase := .finished }.buffer = r.buffer := fun _ => rfl
  rw [close, hphase, buffer_settle]
  split
  · rfl
  · rw [buffer, line_takeLine, text_takeLine]
    simp [buffer]

end Reader
end AgentSurface.Stream
