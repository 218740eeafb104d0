import AgentSurface.Yaml.Node
import AgentSurface.Yaml.Token

/-!
# Yaml — reading

`Yaml.parse?` reads a text that holds one document at most.
-/

namespace AgentSurface.Yaml

/-- The next token is one of these. -/
def nextIn (ends : List Token) : List Token → Bool
  | t :: _ => ends.contains t
  | [] => false

/-- Where nodes of a block may end. -/
def blockEnds : List Token := [.key, .value, .blockEnd]

mutual

/-- A node.  A block of items may lack its beginning, where it stands no further to the right than
the key before it. -/
def node (loose : Bool) : Nat → List Token → Option (Node × List Token)
  | 0, _ => none
  | fuel + 1, tokens =>
    match tokens with
    | .scalar text plain :: rest => some (.scalar text plain, rest)
    | .openList :: rest => flowItems [] fuel rest
    | .openMapping :: rest => flowMembers [] fuel rest
    | .listStart :: rest => blockItems [] fuel rest
    | .mappingStart :: rest => blockMembers [] fuel rest
    | .dash :: _ => if loose then looseItems [] fuel tokens else none
    | _ => none

/-- A node, or nothing if one of `ends` comes next. -/
def nodeBefore (loose : Bool) (ends : List Token) :
    Nat → List Token → Option (Node × List Token)
  | 0, _ => none
  | fuel + 1, tokens =>
    if nextIn ends tokens then some (.nothing, tokens) else node loose fuel tokens

/-- A value behind its colon, or nothing. -/
def valueBefore (loose : Bool) (ends : List Token) :
    Nat → List Token → Option (Node × List Token)
  | 0, _ => none
  | fuel + 1, tokens =>
    match tokens with
    | .value :: rest => nodeBefore loose ends fuel rest
    | _ => some (.nothing, tokens)

/-- A key and its value. -/
def member (loose : Bool) (ends : List Token) :
    Nat → List Token → Option ((Node × Node) × List Token)
  | 0, _ => none
  | fuel + 1, tokens => do
    let (key, tokens) ← nodeBefore loose (.value :: ends) fuel tokens
    let (v, tokens) ← valueBefore loose ends fuel tokens
    return ((key, v), tokens)

/-- A key and its value among items.  A key that is not written takes up the token behind its mark,
be it the colon, the comma or the bracket. -/
def pair : Nat → List Token → Option ((Node × Node) × List Token)
  | 0, _ => none
  | fuel + 1, tokens => do
    let (key, tokens) ←
      if nextIn [.value, .comma, .closeList] tokens then some (.nothing, tokens.drop 1)
      else node false fuel tokens
    let (v, tokens) ← valueBefore false [.comma, .closeList] fuel tokens
    return ((key, v), tokens)

/-- The items of a block; `read` are those so far, latest first. -/
def blockItems (read : List Node) : Nat → List Token → Option (Node × List Token)
  | 0, _ => none
  | fuel + 1, tokens =>
    match tokens with
    | .dash :: rest => do
      let (item, rest) ← nodeBefore false [.dash, .blockEnd] fuel rest
      blockItems (item :: read) fuel rest
    | .blockEnd :: rest => some (.list read.reverse, rest)
    | _ => none

/-- The items of a block without a beginning, which has no end of its own either. -/
def looseItems (read : List Node) : Nat → List Token → Option (Node × List Token)
  | 0, _ => none
  | fuel + 1, tokens =>
    match tokens with
    | .dash :: rest => do
      let (item, rest) ← nodeBefore false (.dash :: blockEnds) fuel rest
      looseItems (item :: read) fuel rest
    | _ => some (.list read.reverse, tokens)

def blockMembers (read : List (Node × Node)) : Nat → List Token → Option (Node × List Token)
  | 0, _ => none
  | fuel + 1, tokens =>
    match tokens with
    | .key :: rest => do
      let (m, rest) ← member true blockEnds fuel rest
      blockMembers (m :: read) fuel rest
    | .blockEnd :: rest => some (.mapping read.reverse, rest)
    | _ => none

/-- The items between brackets.  A key among them is a mapping of its own. -/
def flowItems (read : List Node) : Nat → List Token → Option (Node × List Token)
  | 0, _ => none
  | fuel + 1, tokens =>
    match tokens with
    | .closeList :: rest => some (.list read.reverse, rest)
    | _ => do
      let (item, rest) ←
        match tokens with
        | .key :: rest => (pair fuel rest).map fun (m, rest) => (.mapping [m], rest)
        | _ => node false fuel tokens
      match rest with
      | .comma :: rest => flowItems (item :: read) fuel rest
      | .closeList :: _ => flowItems (item :: read) fuel rest
      | _ => none

/-- The members between braces.  What is no key is one without a value. -/
def flowMembers (read : List (Node × Node)) : Nat → List Token → Option (Node × List Token)
  | 0, _ => none
  | fuel + 1, tokens =>
    match tokens with
    | .closeMapping :: rest => some (.mapping read.reverse, rest)
    | _ => do
      let (m, rest) ←
        match tokens with
        | .key :: rest => member false [.comma, .closeMapping] fuel rest
        | _ => (node false fuel tokens).map fun (key, rest) => ((key, .nothing), rest)
      match rest with
      | .comma :: rest => flowMembers (m :: read) fuel rest
      | .closeMapping :: _ => flowMembers (m :: read) fuel rest
      | _ => none

end

/-- A node in a list of tokens, which has at most three steps for each of them. -/
def nodeOf? (tokens : List Token) : Option (Node × List Token) :=
  node false (4 * tokens.length + 4) tokens

/-- The node of a document.  No document is a document without anything in it. -/
def document? (tokens : List Token) : Option Node := do
  let (n, rest) ←
    match tokens with
    | [] => some (.nothing, [])
    | .documentStart :: rest =>
      if rest.isEmpty || nextIn [.documentStart, .documentEnd] rest then some (.nothing, rest)
      else nodeOf? rest
    | _ => nodeOf? tokens
  if rest.all (· == .documentEnd) then some n else none

/-- Read a text with one document at most. -/
def parse? (s : List Char) : Option Node := (tokens? s).bind document?

end AgentSurface.Yaml
