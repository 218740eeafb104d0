import AgentSurface.Stream.Reader
import AgentSurface.Text.Split

/-!
# Stream — reading by offsets

An `OffsetReader` reads as a `Reader` does, but has the text received so far in one piece, and keeps
the places in it, counted in bytes, where the run and the open line begin.  Whatever it settles or
shows it cuts out between two of these places.  A place that is wrong would not be noticed: a range
that is not there is read as the empty text, and a part of the text is lost.  So a `Gap` says what
is done about such a range, and where gaps are fatal the reader goes on only as long as all ranges
are there.
-/

namespace AgentSurface.Stream

/-- What is done about a range of the text that is not there. -/
inductive Gap where
  /-- It is read as the empty text. -/
  | empty
  /-- Reading ends without an answer. -/
  | fatal
deriving DecidableEq, Repr

/-- The part of the text between two places. -/
def Gap.cut (gap : Gap) (text : String) (start stop : Nat) : Option String :=
  match gap, Text.between? text start stop with
  | _, some part => some part
  | .empty, none => some ""
  | .fatal, none => none

/-- An open fence: where the line that opened it begins and ends. -/
structure OpenFence where
  kind : FenceKind
  start : Nat
  content : Nat
deriving DecidableEq, Repr

structure OffsetReader where
  options : Options := {}
  buffer : String := ""
  /-- Where the line begins that is not complete. -/
  cursor : Nat := 0
  /-- Where the run of prose begins; in a fence, where the fence begins. -/
  textStart : Nat := 0
  fence : Option OpenFence := none
  blocks : List Block := []
  phase : Phase := .streaming
  decoder : Text.Utf8.Decoder := {}

namespace OffsetReader

/-- An offset reader before its text. -/
def new (options : Options) : OffsetReader := { options }

/-- The number of bytes received so far. -/
def received (s : OffsetReader) : Nat := s.buffer.utf8ByteSize

/-- More text, which is not looked at yet. -/
def receive (s : OffsetReader) (piece : String) : OffsetReader :=
  { s with buffer := s.buffer ++ piece }

variable (gap : Gap)

/-! ### Lines -/

/-- The run of prose ends here. -/
def settleProse (s : OffsetReader) (stop : Nat) : Option OffsetReader := do
  let run ← gap.cut s.buffer s.textStart stop
  return { s with blocks := s.blocks ++ proseBlocks run, textStart := stop }

/-- Look whether a line, which is known without its line feed, is a marker. -/
def classify (s : OffsetReader) (start stop next : Nat) : Option OffsetReader := do
  let line ← gap.cut s.buffer start stop
  match s.fence with
  | none =>
    match s.options.opener? line.toList with
    | some kind =>
      let settled ← s.settleProse gap start
      return { settled with fence := some ⟨kind, start, next⟩ }
    | none => return s
  | some fence =>
    if isCloser line.toList then
      let content ← gap.cut s.buffer fence.content start
      return { s with
        blocks := s.blocks ++ interpret fence.kind content
        fence := none
        textStart := next }
    else return s

/-- Take a complete line; the line behind it begins at `next`. -/
def takeLine (s : OffsetReader) (start stop next : Nat) : Option OffsetReader := do
  let marked ← s.classify gap start stop next
  return { marked with cursor := next }

theorem buffer_settleProse {s next : OffsetReader} {stop : Nat}
    (h : s.settleProse gap stop = some next) : next.buffer = s.buffer := by
  obtain ⟨run, -, h⟩ := Option.bind_eq_some_iff.1 h
  cases h
  rfl

theorem buffer_classify {s next : OffsetReader} {start stop behind : Nat}
    (h : s.classify gap start stop behind = some next) : next.buffer = s.buffer := by
  obtain ⟨line, -, h⟩ := Option.bind_eq_some_iff.1 h
  split at h
  · split at h
    · obtain ⟨settled, hsettled, h⟩ := Option.bind_eq_some_iff.1 h
      cases h
      have hbuffer : settled.buffer = s.buffer := buffer_settleProse gap hsettled
      exact hbuffer
    · cases h
      rfl
  · split at h
    · obtain ⟨content, -, h⟩ := Option.bind_eq_some_iff.1 h
      cases h
      rfl
    · cases h
      rfl

theorem takeLine_frame {s next : OffsetReader} {start stop behind : Nat}
    (h : s.takeLine gap start stop behind = some next) :
    next.buffer = s.buffer ∧ next.cursor = behind := by
  obtain ⟨marked, hmarked, h⟩ := Option.bind_eq_some_iff.1 h
  cases h
  have hbuffer : marked.buffer = s.buffer := buffer_classify gap hmarked
  exact ⟨hbuffer, rfl⟩

/-- A range in which there is a character is not empty. -/
theorem lt_of_bytesBefore? {text rest : String} {start stop n : Nat} {c : Char}
    (hcut : gap.cut text start stop = some rest) (h : Text.bytesBefore? c rest.toList = some n) :
    start < stop := by
  have hne : rest ≠ "" := by
    rintro rfl
    cases h
  unfold Gap.cut at hcut
  split at hcut
  · next part hpart =>
    obtain rfl := Option.some.inj hcut
    obtain ⟨before, behind, -, rfl, rfl⟩ := Text.between?_eq_some_iff.1 hpart
    have hpos : 0 < part.utf8ByteSize := by
      rw [Nat.pos_iff_ne_zero, ne_eq, String.utf8ByteSize_eq_zero_iff]
      exact hne
    rw [String.utf8ByteSize_append]
    omega
  · exact absurd (Option.some.inj hcut).symm hne
  · cases hcut

/-- Behind a line there is less to look at. -/
theorem left_lt {s next : OffsetReader} {rest : String} {n : Nat}
    (hrest : gap.cut s.buffer s.cursor s.received = some rest)
    (hfeed : Text.bytesBefore? '\n' rest.toList = some n)
    (htake : s.takeLine gap s.cursor (s.cursor + n) (s.cursor + n + 1) = some next) :
    next.received - next.cursor < s.received - s.cursor := by
  obtain ⟨hbuffer, hcursor⟩ := takeLine_frame gap htake
  have hlt := lt_of_bytesBefore? gap hrest hfeed
  rw [received, hbuffer, hcursor, ← received]
  omega

/-- Take the complete lines of what was received and not looked at yet. -/
def scan (s : OffsetReader) : Option OffsetReader :=
  match hrest : gap.cut s.buffer s.cursor s.received with
  | none => none
  | some rest =>
    match hfeed : Text.bytesBefore? '\n' rest.toList with
    | none => some s
    | some n =>
      match htake : s.takeLine gap s.cursor (s.cursor + n) (s.cursor + n + 1) with
      | none => none
      | some next =>
        have := left_lt gap hrest hfeed htake
        next.scan
termination_by s.received - s.cursor

theorem scan_of_no_feed {s : OffsetReader} {rest : String}
    (hrest : gap.cut s.buffer s.cursor s.received = some rest)
    (hfeed : Text.bytesBefore? '\n' rest.toList = none) : s.scan gap = some s := by
  rw [scan]
  split
  · next hnone => cases hnone.symm.trans hrest
  · next rest' hrest' =>
    obtain rfl := Option.some.inj (hrest'.symm.trans hrest)
    split
    · rfl
    · next n hn => cases hn.symm.trans hfeed

theorem scan_of_feed {s : OffsetReader} {rest : String} {n : Nat}
    (hrest : gap.cut s.buffer s.cursor s.received = some rest)
    (hfeed : Text.bytesBefore? '\n' rest.toList = some n) :
    s.scan gap = (s.takeLine gap s.cursor (s.cursor + n) (s.cursor + n + 1)).bind (scan gap) := by
  rw [scan]
  split
  · next hnone => cases hnone.symm.trans hrest
  · next rest' hrest' =>
    obtain rfl := Option.some.inj (hrest'.symm.trans hrest)
    split
    · next hnone => cases hnone.symm.trans hfeed
    · next n' hn =>
      obtain rfl := Option.some.inj (hn.symm.trans hfeed)
      split
      · next htake => rw [htake]; rfl
      · next next htake => simp only [htake, Option.bind_some]

/-! ### Calls -/

/-- Take a piece of the text. -/
def push (s : OffsetReader) (piece : String) : Option (Answer × OffsetReader) :=
  match s.phase with
  | .finished => some (.error .finished, s)
  | .aborted => some (.ok [], s)
  | .streaming =>
    let attempted := s.received + piece.utf8ByteSize
    if s.options.maxBytes < attempted then
      some (.error (.limitExceeded s.options.maxBytes attempted), s)
    else do
      let next ← (s.receive piece).scan gap
      return (.ok (next.blocks.drop s.blocks.length), next)

/-- Take a piece of the text as bytes; a character that is not complete is held back. -/
def pushBytes (s : OffsetReader) (bytes : List UInt8) : Option (Answer × OffsetReader) :=
  match s.phase with
  | .finished => some (.error .finished, s)
  | .aborted | .streaming =>
    let (piece, decoder) := s.decoder.decode bytes
    push gap { s with decoder } piece

/-- Take the whole text so far, which must begin with what was received before. -/
def sync (s : OffsetReader) (full : String) : Option (Answer × OffsetReader) :=
  match s.phase with
  | .finished => some (.error .finished, s)
  | .aborted | .streaming =>
    if s.buffer.toList.isPrefixOf full.toList then do
      let piece ← gap.cut full s.received full.utf8ByteSize
      s.push gap piece
    else some (.error (.notAnExtension s.received), s)

/-- The stream ends inside this fence. -/
def settleFence (s : OffsetReader) (fence : OpenFence) : Option OffsetReader := do
  let content ← gap.cut s.buffer (min fence.content s.received) s.received
  if content.toList.all Text.isBlank then return s
  else if s.options.closeAtEnd then
    return { s with blocks := s.blocks ++ interpret fence.kind content }
  else
    let raw ← gap.cut s.buffer fence.start s.received
    return { s with blocks := s.blocks ++ [.fault fence.kind raw unterminated] }

/-- The run is over with the text. -/
def settle (s : OffsetReader) : Option OffsetReader :=
  match s.fence with
  | some fence => do
    let settled ← s.settleFence gap fence
    return { settled with fence := none }
  | none => s.settleProse gap s.received

/-- Take the line that has no line feed, if there is one. -/
def takeLast (s : OffsetReader) : Option OffsetReader :=
  if s.cursor < s.received then s.takeLine gap s.cursor s.received s.received else some s

/-- The text received is all of it. -/
def close (s : OffsetReader) : Option OffsetReader := do
  let read ← s.takeLast gap
  let last ← read.settle gap
  return { last with textStart := s.received, phase := .finished }

/-- The text is over. -/
def finish (s : OffsetReader) : Option (Answer × OffsetReader) :=
  match s.phase with
  | .finished => some (.error .finished, s)
  | .aborted => some (.ok [], s)
  | .streaming => do
    let (tail, decoder) := s.decoder.flush
    let next ← close gap { s.receive tail with decoder }
    return (.ok (next.blocks.drop s.blocks.length), next)

/-- Stop reading.  Complete lines of prose are given; an open fence and the open line are not. -/
def abort (s : OffsetReader) : Option (List Block × OffsetReader) := do
  let last ←
    if s.phase = .streaming ∧ s.fence = none then s.settleProse gap s.cursor else some s
  let next := { last with fence := none, phase := .aborted }
  return (next.blocks.drop s.blocks.length, next)

/-! ### Views -/

/-- The provisional view of what is not settled; `none` inside if there is nothing to show. -/
def pending (s : OffsetReader) : Option (Option Pending) :=
  match s.phase with
  | .streaming => do
    let line ← gap.cut s.buffer s.cursor s.received
    let visible := if (Text.trimStart line.toList).head? = some '\x60' then s.cursor else s.received
    match s.fence with
    | some fence =>
      let shown ← gap.cut s.buffer fence.content visible
      let preview :=
        match fence.kind with
        | .json => if shown.utf8ByteSize ≤ maxPreviewBytes then Json.preview shown.toList else none
        | .jsx => none
      return some (.fence fence.kind shown preview)
    | none =>
      let raw ← gap.cut s.buffer s.textStart visible
      return (prose? raw.toList).map fun shown => .text (String.ofList shown)
  | .finished | .aborted => some none

end OffsetReader
end AgentSurface.Stream
