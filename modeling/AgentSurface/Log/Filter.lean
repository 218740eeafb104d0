import AgentSurface.Text.Blank
import AgentSurface.Text.LetterTable
import AgentSurface.Text.Numeral
import AgentSurface.Text.Split

/-!
# Log — filters

A filter says how much is logged: a list of directives, each a level for the part of the program
that a target names, or for all of it.  A directive for a longer target takes precedence over one
for a shorter target, so directives stand in that order; of two for the same target the later one
counts.
-/

namespace AgentSurface.Log

inductive Level where
  | off
  | error
  | warn
  | info
  | debug
  | trace
deriving DecidableEq, Repr

/-- The levels, from nothing to everything. -/
def Level.all : List Level := [.off, .error, .warn, .info, .debug, .trace]

def Level.name : Level → String
  | .off => "off"
  | .error => "error"
  | .warn => "warn"
  | .info => "info"
  | .debug => "debug"
  | .trace => "trace"

/-- A level by its name, in any case, or by its number. -/
def Level.ofChars? (s : List Char) : Option Level :=
  match Text.word? s with
  | some n => Level.all[n]?
  | none => Level.all.find? fun level => Text.sameTag level.name (String.ofList s)

structure Directive where
  /-- What the directive is for; everything if there is none. -/
  target : Option String := none
  level : Level
deriving DecidableEq, Repr

namespace Directive

def text (d : Directive) : String :=
  match d.target with
  | some target => target ++ "=" ++ d.level.name
  | none => d.level.name

/-- A target begins with a letter or a number, `-`, `:` or `_`. -/
def startsTarget (c : Char) : Bool := Text.isAlphanumeric c || c == '-' || c == ':' || c == '_'

/-- The level behind an equals sign; nothing stands for all there is. -/
def levelOf? (s : List Char) : Option Level := if s.isEmpty then some .trace else Level.ofChars? s

/-- A level, a target, or a target with a level behind an equals sign.  A target without a level is
logged in full.  Blanks around a directive do not count when the equals sign is looked for, but its
place is told without the blanks and applied with them: a directive with an equals sign does not
bear blanks before it. -/
def ofChars? (s : List Char) : Option Directive := do
  let bare := Text.trim s
  let named := bare.takeWhile (· != '=')
  if !startsTarget (← bare.head?) then none
  else if named.length = bare.length then
    match Level.ofChars? s with
    | some level => some { level }
    | none => some { target := some (String.ofList s), level := .trace }
  else
    let (target, behind) ← Text.splitAtByte? (Text.byteLength named) s
    let (_, level) ← Text.splitAtByte? 1 behind
    return { target := some (String.ofList target), level := ← levelOf? level }

/-- The order of precedence: longer targets first, those of one length from the last name to the
first, and no target last. -/
def precedes (a b : Directive) : Bool :=
  match a.target, b.target with
  | some a, some b =>
    b.utf8ByteSize < a.utf8ByteSize || (a.utf8ByteSize == b.utf8ByteSize && decide (b < a))
  | some _, none => true
  | none, _ => false

/-- Put a directive in its place among others. -/
def insert (d : Directive) : List Directive → List Directive
  | [] => [d]
  | e :: rest =>
    if d.target = e.target then d :: rest
    else if d.precedes e then d :: e :: rest
    else e :: insert d rest

end Directive

/-- Directives in the order of precedence. -/
abbrev Filter := List Directive

namespace Filter

def text (f : Filter) : String := String.intercalate "," (f.map Directive.text)

/-- Directives with commas between them; nothing between two commas is passed over. -/
def ofText? (s : String) : Option Filter := do
  let pieces := (Text.split ',' s.toList).filter fun piece => !piece.isEmpty
  let directives ← pieces.mapM Directive.ofChars?
  return directives.foldl (fun f d => d.insert f) []

/-- What is logged if the setting cannot be read. -/
def fallback : Filter := [{ level := .info }]

def ofSetting (s : String) : Filter := (ofText? s).getD fallback

end Filter
end AgentSurface.Log
