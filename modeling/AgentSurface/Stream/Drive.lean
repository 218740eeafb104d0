import AgentSurface.Stream.Reader

/-!
# Stream — driving a reader

`drive` takes a reader through the items of a source and tells what happens as a list of events: a
block for each block that is settled, the pending view when it changes, and one last event that
says how it ended.  A reader is told to stop by a signal that is looked at before each item.
-/

namespace AgentSurface.Stream

/-- What a source yields. -/
inductive Item where
  | chunk (text : String)
  | failure (message : String)
deriving DecidableEq, Repr

/-- How a source goes on behind its items. -/
inductive Ending where
  /-- It ends. -/
  | closed
  /-- It stays silent for ever. -/
  | silent
deriving DecidableEq, Repr

inductive FinishReason where
  | completed
  | cancelled
deriving DecidableEq, Repr

inductive Event where
  | block (block : Block)
  | pending (pending : Pending)
  | failed (message : String)
  | finished (reason : FinishReason) (blocks : List Block)

/-- How far a drive has come: how many items it took, and how many events it gave. -/
structure Progress where
  items : Nat := 0
  events : Nat := 0
deriving DecidableEq, Repr

/-- The events of a drive; `waiting` says that it would wait for ever behind them. -/
structure Trace where
  events : List Event
  waiting : Bool := false

/-- The events of a chunk that was taken: its blocks, and the pending view if it is a new one. -/
def chunkEvents (blocks : List Block) (last now : Option Pending) : List Event :=
  let views :=
    match now with
    | some view => if now == last then [] else [Event.pending view]
    | none => []
  blocks.map Event.block ++ views

/-- The drive is told to stop. -/
def cancelEvents (r : Reader) : List Event :=
  let (blocks, stopped) := r.abort
  blocks.map Event.block ++ [.finished .cancelled stopped.blocks]

/-- The source is over. -/
def closeEvents (r : Reader) : List Event :=
  match r.finish with
  | (.ok blocks, finished) => blocks.map Event.block ++ [.finished .completed finished.blocks]
  | (.error refusal, _) => [.failed refusal.message]

/-- Put events in front. -/
def Trace.after (events : List Event) (t : Trace) : Trace := { t with events := events ++ t.events }

/-- Drive a reader whose last pending view was `last`; `stop` says when it is told to stop. -/
def driveFrom (stop : Progress → Bool) (ending : Ending) (progress : Progress)
    (last : Option Pending) (r : Reader) : List Item → Trace
  | [] =>
    if stop progress then { events := cancelEvents r }
    else
      match ending with
      | .closed => { events := closeEvents r }
      | .silent => { events := [], waiting := true }
  | .failure message :: _ =>
    if stop progress then { events := cancelEvents r } else { events := [.failed message] }
  | .chunk text :: rest =>
    if stop progress then { events := cancelEvents r }
    else
      match r.push text with
      | (.error refusal, _) => { events := [.failed refusal.message] }
      | (.ok blocks, next) =>
        let events := chunkEvents blocks last next.pending
        let progress := ⟨progress.items + 1, progress.events + events.length⟩
        (driveFrom stop ending progress next.pending next rest).after events

/-- Drive a reader through the items of a source. -/
def drive (stop : Progress → Bool) (ending : Ending) (r : Reader) (items : List Item) : Trace :=
  driveFrom stop ending {} none r items

/-! ### Wire form -/

def FinishReason.name : FinishReason → String
  | .completed => "completed"
  | .cancelled => "cancelled"

def Event.toJson : Event → Json
  | .block b => .object [("event", .string "block"), ("block", b.toJson)]
  | .pending p => .object [("event", .string "pending"), ("pending", p.toJson)]
  | .failed message => .object [("event", .string "failed"), ("error", .string message)]
  | .finished reason blocks =>
    .object [("event", .string "finished"), ("reason", .string reason.name),
      ("blocks", .array (blocks.map Block.toJson))]

end AgentSurface.Stream
