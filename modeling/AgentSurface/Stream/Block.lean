import AgentSurface.Jsx.Tree

/-!
# Stream — blocks

What a stream of text consists of: prose, trees of JSX, surface updates, and the contents of fences
that can not be read.  A pending block is the provisional view of the end of a stream.
-/

namespace AgentSurface.Stream

/-- What a fence holds. -/
inductive FenceKind where
  | json
  | jsx
deriving DecidableEq, Repr

def FenceKind.name : FenceKind → String
  | .json => "json"
  | .jsx => "jsx"

/-- The name of the fault of a fence that can not be read. -/
def FenceKind.faultName : FenceKind → String
  | .json => "json-parse"
  | .jsx => "jsx-parse"

inductive Block where
  | text (text : String)
  | jsx (source : String) (nodes : List Jsx.Node)
  | update (message : Json) (raw : String)
  | fault (kind : FenceKind) (raw reason : String)
deriving BEq

def Block.kindName : Block → String
  | .text _ => "text"
  | .jsx _ _ => "jsx"
  | .update _ _ => "a2ui"
  | .fault _ _ _ => "error"

def Block.isFault : Block → Bool
  | .fault _ _ _ => true
  | _ => false

/-- The end of a stream that is not settled yet. -/
inductive Pending where
  | text (text : String)
  | fence (kind : FenceKind) (content : String) (preview : Option Json)
deriving BEq

/-! ### Wire form -/

def Block.toJson (b : Block) : Json :=
  let tag := ("type", Json.string b.kindName)
  match b with
  | .text t => .object [tag, ("text", .string t)]
  | .jsx source nodes =>
    .object [tag, ("source", .string source), ("nodes", .array (Jsx.Node.listToJson nodes))]
  | .update message raw => .object [tag, ("message", message), ("raw", .string raw)]
  | .fault kind raw reason =>
    .object [tag, ("kind", .string kind.faultName), ("raw", .string raw),
      ("reason", .string reason)]

def Pending.toJson : Pending → Json
  | .text t => .object [("type", .string "text"), ("text", .string t)]
  | .fence kind content preview =>
    .object [("type", .string "fence"), ("kind", .string kind.name), ("partial", .string content),
      ("preview", Json.orNull preview)]

end AgentSurface.Stream
