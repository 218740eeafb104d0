import AgentSurface.Text.Blank

/-!
# Yaml — the texts of scalars

A scalar may run over several lines.  Blanks around a line break do not count, and a single line
break is read as a space; of several, all but the first are kept.
-/

namespace AgentSurface.Yaml

/-! ### Characters -/

/-- Blanks inside a line. -/
def isWhite (c : Char) : Bool := c == ' ' || c == '\t'

def isLineEnd (c : Char) : Bool :=
  c == '\n' || c == '\r' || c == '\u0085' || c == '\u2028' || c == '\u2029'

/-- The text goes on with a blank or a line end, or not at all. -/
def atGap : List Char → Bool
  | [] => true
  | c :: _ => isWhite c || isLineEnd c

/-- The characters that may stand in a text. -/
def isAllowed (c : Char) : Bool :=
  let n := c.toNat
  n == 0x09 || n == 0x0A || n == 0x0D || (0x20 ≤ n && n ≤ 0x7E) || n == 0x85 ||
    (0xA0 ≤ n && n ≤ 0xFFFD) || 0x10000 ≤ n

/-- The text goes on with three of these characters, and a gap behind them. -/
def startsMark (c : Char) : List Char → Bool
  | a :: b :: d :: rest => a == c && b == c && d == c && atGap rest
  | _ => false

/-- At the beginning of a line: the mark of a beginning or an end of a document. -/
def startsDocumentMark (s : List Char) : Bool := startsMark '-' s || startsMark '.' s

/-! ### Gaps -/

/-- Blanks and line ends between two parts of a scalar. -/
inductive Gap where
  /-- Blanks of one line, latest first. -/
  | white (text : List Char)
  /-- The first line end, if it counts, and those behind it, latest first. -/
  | lines (first : Option Char) (more : List Char)
deriving DecidableEq

namespace Gap

def none : Gap := .white []

def addWhite (c : Char) : Gap → Gap
  | .white text => .white (c :: text)
  | gap => gap

/-- Line ends of one line are the same; those of a paragraph stay what they are. -/
def lineEnd (c : Char) : Char := if c == '\u2028' || c == '\u2029' then c else '\n'

def addLine (c : Char) : Gap → Gap
  | .white _ => .lines (some (lineEnd c)) []
  | .lines first more => .lines first (lineEnd c :: more)

def isLines : Gap → Bool
  | .white _ => false
  | .lines _ _ => true

/-- What is read for a gap, latest first. -/
def folded : Gap → List Char
  | .white text => text
  | .lines (some '\n') [] => [' ']
  | .lines (some '\n') more => more
  | .lines first more => more ++ first.toList

end Gap

/-- The text behind a line end that begins with `c`. -/
def afterLineEnd (c : Char) (rest : List Char) : List Char :=
  match c, rest with
  | '\r', '\n' :: rest => rest
  | _, rest => rest

theorem length_afterLineEnd (c : Char) (rest : List Char) :
    (afterLineEnd c rest).length ≤ rest.length := by
  unfold afterLineEnd
  split <;> simp

/-! ### Quoted scalars -/

/-- The character of an escape of one character. -/
def shortEscape? (c : Char) : Option Char :=
  match c with
  | '0' => some '\x00'
  | 'a' => some '\x07'
  | 'b' => some '\x08'
  | 't' | '\t' => some '\t'
  | 'n' => some '\n'
  | 'v' => some '\x0b'
  | 'f' => some '\x0c'
  | 'r' => some '\r'
  | 'e' => some '\x1b'
  | ' ' | '"' | '/' | '\\' => some c
  | 'N' => some '\u0085'
  | '_' => some '\u00a0'
  | 'L' => some '\u2028'
  | 'P' => some '\u2029'
  | _ => none

/-- How many digits stand behind the letter of an escape. -/
def escapeWidth? (c : Char) : Option Nat :=
  match c with
  | 'x' => some 2
  | 'u' => some 4
  | 'U' => some 8
  | _ => none

/-- The character that hexadecimal digits tell, if there are so many of them. -/
def hexChar? (width : Nat) (s : List Char) : Option Char := do
  let digits ← (s.take width).mapM Text.hexDigit?
  let n := digits.foldl (fun n d => n * 16 + d) 0
  if digits.length = width ∧ n.isValidChar then some (Char.ofNat n) else none

/-- The text of a quoted scalar, behind its first quote, and what stands behind its last one.
`read` is the text so far, latest character first. -/
def quoted (double : Bool) (read : List Char) (gap : Gap) (s : List Char) :
    Option (List Char × List Char) :=
  match s with
  | [] => none
  | c :: rest =>
    if isWhite c then quoted double read (gap.addWhite c) rest
    else if isLineEnd c then
      let next := afterLineEnd c rest
      if startsDocumentMark next then none else quoted double read (gap.addLine c) next
    else
      let read := gap.folded ++ read
      if double then
        if c = '"' then some (read.reverse, rest)
        else if c = '\\' then
          match rest with
          | [] => none
          | d :: rest =>
            if isLineEnd d then
              let next := afterLineEnd d rest
              if startsDocumentMark next then none else quoted double read (.lines none []) next
            else
              match escapeWidth? d with
              | some width =>
                match hexChar? width rest with
                | some meant => quoted double (meant :: read) .none (rest.drop width)
                | none => none
              | none =>
                match shortEscape? d with
                | some meant => quoted double (meant :: read) .none rest
                | none => none
        else quoted double (c :: read) .none rest
      else if c = '\'' then
        match rest with
        | '\'' :: rest => quoted double ('\'' :: read) .none rest
        | rest => some (read.reverse, rest)
      else quoted double (c :: read) .none rest
termination_by s.length
decreasing_by
  all_goals simp only [List.length_cons, List.length_drop]
  all_goals first
    | omega
    | have := length_afterLineEnd c rest; omega
    | have := length_afterLineEnd d rest; omega

/-! ### Plain scalars -/

/-- A character that may not begin a plain scalar. -/
def isIndicator (c : Char) : Bool :=
  "-?:,[]\x7b\x7d#&*!|>'\"%@\x60".toList.contains c

/-- A plain scalar begins here. -/
def startsPlain (inFlow : Bool) : List Char → Bool
  | [] => false
  | c :: rest =>
    (!isWhite c && !isLineEnd c && !isIndicator c) || (c == '-' && !(rest.head?.any isWhite)) ||
      (!inFlow && (c == '?' || c == ':') && !atGap rest)

/-- A character that ends a plain scalar inside brackets. -/
def isBracket (c : Char) : Bool := ",[]\x7b\x7d".toList.contains c

structure Plain where
  text : List Char
  rest : List Char
  /-- The scalar was ended by a new line. -/
  endedLine : Bool

/-- The text of a plain scalar.  Outside brackets, its lines must be indented to the column
`indent`; `column` is the column of the next character. -/
def plain (inFlow : Bool) (indent column : Nat) (read : List Char) (gap : Gap) (s : List Char) :
    Option Plain :=
  let ended : Option Plain := some ⟨read.reverse, s, gap.isLines⟩
  match s with
  | [] => ended
  | c :: rest =>
    if isWhite c then
      if gap.isLines && column < indent && c == '\t' then none
      else plain inFlow indent (column + 1) read (gap.addWhite c) rest
    else if isLineEnd c then
      plain inFlow indent 0 read (gap.addLine c) (afterLineEnd c rest)
    else if gap.isLines && !inFlow && column < indent then ended
    else if gap.isLines && column == 0 && startsDocumentMark s then ended
    else if c == '#' && gap != .none then ended
    else if inFlow && c == ':' && rest.head?.any fun d => d == '?' || isBracket d then none
    else if (c == ':' && atGap rest) || (inFlow && isBracket c) then ended
    else plain inFlow indent (column + 1) (c :: (gap.folded ++ read)) .none rest
termination_by s.length
decreasing_by
  all_goals simp only [List.length_cons]
  all_goals first
    | omega
    | have := length_afterLineEnd c rest; omega

end AgentSurface.Yaml
