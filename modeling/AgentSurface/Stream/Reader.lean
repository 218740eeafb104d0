import AgentSurface.Json.Preview
import AgentSurface.Stream.Fence
import AgentSurface.Text.Utf8

/-!
# Stream — reading as the text arrives

A `Reader` takes a text in pieces and gives the blocks that each piece settles.  It decides on
complete lines only, so what it gives does not depend on where the text is cut, and a block that it
gave is never taken back.

The text received so far is kept in three parts: what is settled, the run of complete lines that is
being read, which is prose or an open fence, and the line that is not complete.  `Reader.feed`
takes one character; a piece is fed character by character.
-/

namespace AgentSurface.Stream

/-- The complete lines since the last block. -/
inductive Run where
  | prose (text : String)
  /-- An open fence: the line that opened it, and the lines since. -/
  | fence (kind : FenceKind) (opener content : String)
deriving DecidableEq, Repr

def Run.text : Run → String
  | .prose text => text
  | .fence _ opener content => opener ++ content

def Run.fence? : Run → Option FenceKind
  | .prose _ => none
  | .fence kind _ _ => some kind

inductive Phase where
  | streaming
  | finished
  | aborted
deriving DecidableEq, Repr

structure Reader where
  options : Options := {}
  /-- The text of the runs before. -/
  settled : String := ""
  run : Run := .prose ""
  /-- The line that is not complete. -/
  line : String := ""
  /-- All blocks given so far. -/
  blocks : List Block := []
  phase : Phase := .streaming
  decoder : Text.Utf8.Decoder := {}

/-- Why a call is refused. -/
inductive Refusal where
  | limitExceeded (limit attempted : Nat)
  | notAnExtension (received : Nat)
  | finished
deriving DecidableEq, Repr

def Refusal.message : Refusal → String
  | .limitExceeded limit attempted =>
    "buffer limit of " ++ toString limit ++ " bytes exceeded (" ++ toString attempted ++ " bytes)"
  | .notAnExtension received =>
    "input does not extend the " ++ toString received ++ " bytes already received"
  | .finished => "parser already finished"

/-- What a call answers: the blocks that it settled, or a refusal. -/
abbrev Answer := Except Refusal (List Block)

/-- Contents of fences larger than this have no preview. -/
def maxPreviewBytes : Nat := 256 * 1024

/-- What the blocks say about a fence that the stream left open. -/
def unterminated : String := "stream ended inside an unterminated fence"

namespace Reader

/-- A reader before its text. -/
def new (options : Options) : Reader := { options }

/-! ### Views -/

/-- The text received so far. -/
def buffer (r : Reader) : String := r.settled ++ r.run.text ++ r.line

/-- The number of bytes received so far. -/
def received (r : Reader) : Nat :=
  let run :=
    match r.run with
    | .prose text => text.utf8ByteSize
    | .fence _ opener content => opener.utf8ByteSize + content.utf8ByteSize
  r.settled.utf8ByteSize + run + r.line.utf8ByteSize

/-- The blocks from the `n`-th on. -/
def blocksSince (r : Reader) (n : Nat) : List Block := r.blocks.drop n

/-- The part of the open line that can be shown: nothing if it may become a marker. -/
def visibleLine (r : Reader) : String :=
  if (Text.trimStart r.line.toList).head? = some '\x60' then "" else r.line

/-- The provisional view of what is not settled. -/
def pending (r : Reader) : Option Pending :=
  match r.phase with
  | .streaming =>
    match r.run with
    | .fence kind _ content =>
      let shown := content ++ r.visibleLine
      let preview :=
        match kind with
        | .json => if shown.utf8ByteSize ≤ maxPreviewBytes then Json.preview shown.toList else none
        | .jsx => none
      some (.fence kind shown preview)
    | .prose text =>
      (prose? (text ++ r.visibleLine).toList).map fun shown => .text (String.ofList shown)
  | .finished | .aborted => none

/-! ### Lines -/

/-- Take a complete line, with its line feed if it has one. -/
def takeLine (r : Reader) (line : String) : Reader :=
  match r.run with
  | .prose text =>
    match r.options.opener? line.toList with
    | some kind =>
      { r with
        settled := r.settled ++ text
        run := .fence kind line ""
        blocks := r.blocks ++ proseBlocks text }
    | none => { r with run := .prose (text ++ line) }
  | .fence kind opener content =>
    if isCloser line.toList then
      { r with
        settled := r.settled ++ opener ++ content ++ line
        run := .prose ""
        blocks := r.blocks ++ interpret kind content }
    else { r with run := .fence kind opener (content ++ line) }

/-- Take one character. -/
def feed (r : Reader) (c : Char) : Reader :=
  let line := r.line.push c
  if c = '\n' then takeLine { r with line := "" } line else { r with line }

/-- Take a text. -/
def feedAll (r : Reader) (text : List Char) : Reader := text.foldl feed r

/-- The run is over: its blocks, when the stream ends behind it. -/
def Run.atEnd (options : Options) : Run → List Block
  | .prose text => proseBlocks text
  | .fence kind opener content =>
    if content.toList.all Text.isBlank then []
    else if options.closeAtEnd then interpret kind content
    else [.fault kind (opener ++ content) unterminated]

/-- Count the run as settled, with these blocks. -/
def settle (r : Reader) (blocks : List Block) : Reader :=
  { r with
    settled := r.settled ++ r.run.text
    run := .prose ""
    blocks := r.blocks ++ blocks }

/-! ### Calls -/

/-- Take a piece of the text. -/
def push (r : Reader) (piece : String) : Answer × Reader :=
  match r.phase with
  | .finished => (.error .finished, r)
  | .aborted => (.ok [], r)
  | .streaming =>
    let attempted := r.received + piece.utf8ByteSize
    if r.options.maxBytes < attempted then
      (.error (.limitExceeded r.options.maxBytes attempted), r)
    else
      let next := r.feedAll piece.toList
      (.ok (next.blocksSince r.blocks.length), next)

/-- Take a piece of the text as bytes; a character that is not complete is held back. -/
def pushBytes (r : Reader) (bytes : List UInt8) : Answer × Reader :=
  match r.phase with
  | .finished => (.error .finished, r)
  | .aborted | .streaming =>
    let (piece, decoder) := r.decoder.decode bytes
    push { r with decoder } piece

/-- Take the whole text so far, which must begin with what was received before. -/
def sync (r : Reader) (full : String) : Answer × Reader :=
  match r.phase with
  | .finished => (.error .finished, r)
  | .aborted | .streaming =>
    let received := r.buffer.toList
    if received.isPrefixOf full.toList then
      push r (String.ofList (full.toList.drop received.length))
    else (.error (.notAnExtension r.received), r)

/-- The text is over. -/
def finish (r : Reader) : Answer × Reader :=
  match r.phase with
  | .finished => (.error .finished, r)
  | .aborted => (.ok [], r)
  | .streaming =>
    let (tail, decoder) := r.decoder.flush
    let line := r.line ++ tail
    let read := if line.isEmpty then { r with decoder } else takeLine { r with line := "", decoder } line
    let last := settle read (Run.atEnd r.options read.run)
    let next := { last with phase := .finished }
    (.ok (next.blocksSince r.blocks.length), next)

/-- Stop reading.  Complete lines of prose are given; an open fence and the open line are not. -/
def abort (r : Reader) : List Block × Reader :=
  let last :=
    match r.phase, r.run with
    | .streaming, .prose text => settle r (proseBlocks text)
    | _, _ => settle r []
  let next := { last with phase := .aborted }
  (next.blocksSince r.blocks.length, next)

end Reader
end AgentSurface.Stream
