import AgentSurface.Yaml.Scalar

/-!
# Yaml — tokens

A text in YAML as a list of tokens.  Some of them are not written: the beginning and the end of a
block follow from the columns in which lines begin, and that a node is a key is told only by the
colon behind it.  So the reader remembers where a key may have begun, and puts the token of the key
there when the colon comes.
-/

namespace AgentSurface.Yaml

inductive Token where
  | documentStart
  | documentEnd
  /-- The beginning of a block of items. -/
  | listStart
  /-- The beginning of a block of members. -/
  | mappingStart
  | blockEnd
  /-- The dash before an item. -/
  | dash
  | key
  | value
  | openList
  | closeList
  | openMapping
  | closeMapping
  | comma
  | scalar (text : String) (plain : Bool)
deriving DecidableEq, Repr

/-- A place in a text. -/
structure Cursor where
  rest : List Char
  line : Nat := 0
  column : Nat := 0
  index : Nat := 0

/-- Behind the next character. -/
def Cursor.next (c : Cursor) : Cursor :=
  match c.rest with
  | [] => c
  | ch :: rest =>
    if isLineEnd ch && !(ch == '\r' && rest.head? == some '\n') then
      ⟨rest, c.line + 1, 0, c.index + 1⟩
    else ⟨rest, c.line, c.column + 1, c.index + 1⟩

def Cursor.skip (c : Cursor) : Nat → Cursor
  | 0 => c
  | n + 1 => c.next.skip n

/-- The place at which so much of the text is left. -/
def Cursor.skipTo (c : Cursor) (rest : List Char) : Cursor :=
  c.skip (c.rest.length - rest.length)

/-- A node that may turn out to be a key. -/
structure Candidate where
  /-- How many tokens stand before it. -/
  position : Nat
  line : Nat
  column : Nat
  index : Nat
  /-- Nothing but a key can stand there. -/
  required : Bool

/-- How far a colon may be from the beginning of its key. -/
def keyReach : Nat := 1024

structure Layout where
  cursor : Cursor
  /-- The tokens so far, latest first. -/
  tokens : List Token := []
  /-- The column of the current block; -1 outside of all blocks. -/
  indent : Int := -1
  /-- The columns of the blocks around it. -/
  outerIndents : List Int := []
  /-- The latest node that may be a key. -/
  candidate : Option Candidate := none
  /-- For each bracket that is open, the node before it that may be a key. -/
  outer : List (Option Candidate) := []
  /-- A key may begin here. -/
  keyAllowed : Bool := true

namespace Layout

def inFlow (l : Layout) : Bool := !l.outer.isEmpty

def push (l : Layout) (t : Token) : Layout := { l with tokens := t :: l.tokens }

/-- Put a token behind the first `position` tokens. -/
def insert (l : Layout) (position : Nat) (t : Token) : Layout :=
  let later := l.tokens.length - position
  { l with tokens := l.tokens.take later ++ t :: l.tokens.drop later }

/-- Go behind the next `n` characters. -/
def skip (l : Layout) (n : Nat) : Layout := { l with cursor := l.cursor.skip n }

/-! ### Candidates for keys -/

/-- The candidate cannot be a key any more. -/
def Candidate.isStale (c : Candidate) (cursor : Cursor) : Bool :=
  c.line < cursor.line || c.index + keyReach < cursor.index

/-- Give up a candidate, unless it has to be a key. -/
def giveUp : Option Candidate → Option (Option Candidate)
  | some c => if c.required then none else some none
  | none => some none

/-- Give up a candidate if it is stale. -/
def refresh (cursor : Cursor) (c : Option Candidate) : Option (Option Candidate) :=
  if c.any fun c => Candidate.isStale c cursor then giveUp c else some c

def refreshAll (l : Layout) : Option Layout := do
  let candidate ← refresh l.cursor l.candidate
  let outer ← l.outer.mapM (refresh l.cursor)
  return { l with candidate, outer }

def giveUpCandidate (l : Layout) : Option Layout :=
  (giveUp l.candidate).map fun candidate => { l with candidate }

/-- The node that begins here may be a key, if a key may begin here. -/
def propose (l : Layout) : Option Layout :=
  if l.keyAllowed then
    (giveUp l.candidate).map fun _ =>
      { l with
        candidate := some
          { position := l.tokens.length
            line := l.cursor.line
            column := l.cursor.column
            index := l.cursor.index
            required := !l.inFlow && l.indent == l.cursor.column } }
  else some l

/-! ### Blocks -/

/-- Begin a block at a column to the right of the current block. -/
def roll (l : Layout) (column position : Nat) (start : Token) : Layout :=
  if !l.inFlow && l.indent < column then
    { l.insert position start with indent := column, outerIndents := l.indent :: l.outerIndents }
  else l

/-- End the blocks of these columns as long as they are to the right of `column`. -/
def unrollTo (column : Int) (tokens : List Token) (indent : Int) :
    List Int → List Token × Int × List Int
  | [] => (tokens, indent, [])
  | outer :: outers =>
    if column < indent then unrollTo column (.blockEnd :: tokens) outer outers
    else (tokens, indent, outer :: outers)

/-- End the blocks to the right of a column. -/
def unroll (l : Layout) (column : Int) : Layout :=
  if l.inFlow then l
  else
    let (tokens, indent, outerIndents) := unrollTo column l.tokens l.indent l.outerIndents
    { l with tokens, indent, outerIndents }

/-! ### Between tokens -/

/-- The text behind blanks, comments and line ends, and whether a key may begin there.  Where a key
may begin, a tab is no blank. -/
def afterGap (inFlow keyAllowed inComment : Bool) : List Char → List Char × Bool
  | [] => ([], keyAllowed)
  | c :: rest =>
    if isLineEnd c then afterGap inFlow (keyAllowed || !inFlow) false rest
    else if inComment then afterGap inFlow keyAllowed true rest
    else if c == ' ' || (c == '\t' && (inFlow || !keyAllowed)) then
      afterGap inFlow keyAllowed false rest
    else if c == '#' then afterGap inFlow keyAllowed true rest
    else (c :: rest, keyAllowed)

def skipGap (l : Layout) : Layout :=
  let (rest, keyAllowed) := afterGap l.inFlow l.keyAllowed false l.cursor.rest
  { l with cursor := l.cursor.skipTo rest, keyAllowed }

/-! ### Tokens -/

def documentMark (l : Layout) (t : Token) : Option Layout :=
  ((l.unroll (-1)).giveUpCandidate).map fun l => ({ l with keyAllowed := false }.skip 3).push t

/-- An opening bracket, which may begin a key itself. -/
def opening (l : Layout) (t : Token) : Option Layout :=
  l.propose.map fun l =>
    ({ l with candidate := none, outer := l.candidate :: l.outer, keyAllowed := true }.skip 1).push t

/-- A closing bracket; whether one is open for it is for the reader of the tokens to tell. -/
def closing (l : Layout) (t : Token) : Option Layout :=
  l.giveUpCandidate.map fun l =>
    ({ l with candidate := l.outer.head?.join, outer := l.outer.tail, keyAllowed := false }.skip 1).push t

def comma (l : Layout) : Option Layout :=
  l.giveUpCandidate.map fun l => ({ l with keyAllowed := true }.skip 1).push .comma

/-- A dash begins a block of items, unless one is open in its column. -/
def dash (l : Layout) : Option Layout :=
  if l.inFlow || !l.keyAllowed then none
  else
    (l.roll l.cursor.column l.tokens.length .listStart).giveUpCandidate.map fun l =>
      ({ l with keyAllowed := true }.skip 1).push .dash

/-- The question mark before a key. -/
def question (l : Layout) : Option Layout :=
  if !l.inFlow && !l.keyAllowed then none
  else
    (l.roll l.cursor.column l.tokens.length .mappingStart).giveUpCandidate.map fun l =>
      ({ l with keyAllowed := !l.inFlow }.skip 1).push .key

/-- A colon.  What stands before it is a key, if it may be one, and begins a block of members,
unless one is open in its column. -/
def colon (l : Layout) : Option Layout :=
  match l.candidate with
  | some c =>
    let l := (l.insert c.position .key).roll c.column c.position .mappingStart
    some (({ l with candidate := none, keyAllowed := false }.skip 1).push .value)
  | none =>
    if !l.inFlow && !l.keyAllowed then none
    else
      let l := l.roll l.cursor.column l.tokens.length .mappingStart
      some (({ l with keyAllowed := !l.inFlow }.skip 1).push .value)

def quotedScalar (l : Layout) (double : Bool) : Option Layout := do
  let l ← l.propose
  let (text, rest) ← quoted double [] .none (l.cursor.rest.drop 1)
  let token := Token.scalar (String.ofList text) false
  return { l with cursor := l.cursor.skipTo rest, keyAllowed := false }.push token

def plainScalar (l : Layout) : Option Layout := do
  let l ← l.propose
  let p ← plain l.inFlow (l.indent + 1).toNat l.cursor.column [] .none l.cursor.rest
  let token := Token.scalar (String.ofList p.text) true
  return { l with cursor := l.cursor.skipTo p.rest, keyAllowed := p.endedLine }.push token

/-- Read the token that begins with `c`, which is no blank. -/
def take (l : Layout) (c : Char) (rest : List Char) : Option Layout :=
  if l.cursor.column == 0 && c == '%' then none
  else if l.cursor.column == 0 && startsMark '-' (c :: rest) then l.documentMark .documentStart
  else if l.cursor.column == 0 && startsMark '.' (c :: rest) then l.documentMark .documentEnd
  else if c == '[' then l.opening .openList
  else if c == '{' then l.opening .openMapping
  else if c == ']' then l.closing .closeList
  else if c == '}' then l.closing .closeMapping
  else if c == ',' then l.comma
  else if c == '-' && atGap rest then l.dash
  else if c == '?' && (l.inFlow || atGap rest) then l.question
  else if c == ':' && (l.inFlow || atGap rest) then l.colon
  else if c == '"' then l.quotedScalar true
  else if c == '\'' then l.quotedScalar false
  else if startsPlain l.inFlow (c :: rest) then l.plainScalar
  else none

/-- The end of the text. -/
def close (l : Layout) : Option (List Token) :=
  ((l.unroll (-1)).giveUpCandidate).map fun l => l.tokens.reverse

/-- Read tokens to the end of the text, no more than `fuel` of them. -/
def run : Nat → Layout → Option (List Token)
  | 0, _ => none
  | fuel + 1, l => do
    let l ← l.skipGap.refreshAll
    let l := l.unroll l.cursor.column
    match l.cursor.rest with
    | [] => l.close
    | c :: rest => run fuel (← l.take c rest)

end Layout

/-- The beginning of a text.  A byte order mark there is no token, but it takes up a column. -/
def Cursor.start (s : List Char) : Cursor :=
  let c : Cursor := { rest := s }
  if s.head? == some '\uFEFF' then c.next else c

/-- The tokens of a text.  Each has a character of its own, but for those that are not written. -/
def tokens? (s : List Char) : Option (List Token) :=
  if s.all isAllowed then Layout.run (s.length + 1) { cursor := .start s } else none

end AgentSurface.Yaml
