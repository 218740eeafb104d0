import AgentSurface.Text.CaseTable

/-!
# Text — lower case

`lower` is the full mapping of Unicode without regard to language.  It works character by character
but for the capital sigma, which has another form at the end of a word.
-/

namespace AgentSurface.Text

def isCased (c : Char) : Bool := within c.toNat casedBounds

def isCaseIgnorable (c : Char) : Bool := within c.toNat caseIgnorableBounds

/-- The lower case of a character on its own. -/
def lowerChar (c : Char) : List Char :=
  if c.toNat < 0x80 then [c.toLower]
  else if c = '\u0130' then ['i', '\u0307']
  else
    match caseRuns.find? (·.has c.toNat) with
    | some run => [Char.ofNat ((c.toNat : Int) + run.shift).toNat]
    | none => [c]

/-- The nearest character that matters for case is a letter with case. -/
def meetsCased (s : List Char) : Bool :=
  match s.dropWhile isCaseIgnorable with
  | c :: _ => isCased c
  | [] => false

/-- The lower case of a capital sigma: `before` are the characters before it, the nearest first. -/
def lowerSigma (before after : List Char) : Char :=
  if meetsCased before && !meetsCased after then '\u03C2' else '\u03C3'

/-- The lower case of a text behind the characters `before`, the nearest first. -/
def lowerFrom (before : List Char) : List Char → List Char
  | [] => []
  | c :: rest =>
    (if c = '\u03A3' then [lowerSigma before rest] else lowerChar c) ++ lowerFrom (c :: before) rest

/-- The lower case of a text. -/
def lower (s : List Char) : List Char := lowerFrom [] s

/-- The lower case of a text. -/
def lowercase (s : String) : String := String.ofList (lower s.toList)

end AgentSurface.Text
