/-!
# Text — UTF-8

The bytes of a text arrive in pieces, and a piece may end inside a character.  A `Decoder` holds
back the bytes of a character that is not complete yet; they are never more than three.  Bytes
that can not be part of any character are read as one replacement character for each longest
beginning of a character they form, or for each byte if they form none.

`size` is the number of bytes that a text takes.
-/

namespace AgentSurface.Text

/-- The number of bytes of a text. -/
def size (s : List Char) : Nat := s.foldr (fun c n => c.utf8Size + n) 0

end AgentSurface.Text

namespace AgentSurface.Text.Utf8

/-- Stands for bytes that are no text. -/
def replacement : Char := '\uFFFD'

/-- What some bytes are, read as the beginning of one character. -/
inductive Reading where
  /-- Exactly this character. -/
  | complete (c : Char)
  /-- Not yet a character, but more bytes can make them one. -/
  | partway
  /-- The beginning of no character. -/
  | broken
deriving DecidableEq

/-- A byte that continues a character. -/
def isContinuation (b : UInt8) : Bool := 0x80 ≤ b && b ≤ 0xBF

/-- Which second bytes a first byte allows.  The bounds leave out characters written with more
bytes than they need, surrogates, and code points past the last one. -/
def allowsSecond (first second : UInt8) : Bool :=
  if first == 0xE0 then 0xA0 ≤ second && second ≤ 0xBF
  else if first == 0xED then 0x80 ≤ second && second ≤ 0x9F
  else if first == 0xF0 then 0x90 ≤ second && second ≤ 0xBF
  else if first == 0xF4 then 0x80 ≤ second && second ≤ 0x8F
  else isContinuation second

/-- How many bytes the character that begins with `first` takes; `none` for no first byte. -/
def length? (first : UInt8) : Option Nat :=
  if first < 0x80 then some 1
  else if 0xC2 ≤ first && first ≤ 0xDF then some 2
  else if 0xE0 ≤ first && first ≤ 0xEF then some 3
  else if 0xF0 ≤ first && first ≤ 0xF4 then some 4
  else none

/-- The code point that the payload bits of a complete character spell. -/
def codePoint : List UInt8 → Nat
  | [] => 0
  | first :: rest =>
    let lead := if first < 0x80 then first.toNat
      else if first < 0xE0 then first.toNat % 32
      else if first < 0xF0 then first.toNat % 16
      else first.toNat % 8
    rest.foldl (fun n b => n * 64 + b.toNat % 64) lead

/-- Every byte after the first is one that may stand there. -/
def wellFollowed : List UInt8 → Bool
  | [] => true
  | [_] => true
  | first :: second :: rest => allowsSecond first second && rest.all isContinuation

/-- Read bytes as the beginning of one character. -/
def read (bytes : List UInt8) : Reading :=
  match bytes with
  | [] => .partway
  | first :: _ =>
    match length? first with
    | none => .broken
    | some n =>
      if !wellFollowed bytes then .broken
      else if bytes.length < n then .partway
      else if bytes.length = n then .complete (Char.ofNat (codePoint bytes))
      else .broken

/-! ### The decoder -/

/-- The bytes of a character that is not complete yet. -/
structure Decoder where
  held : List UInt8 := []
deriving DecidableEq

/-- Take a byte that begins anew. -/
def Decoder.start (text : String) (b : UInt8) : String × Decoder :=
  match read [b] with
  | .complete c => (text.push c, ⟨[]⟩)
  | .partway => (text, ⟨[b]⟩)
  | .broken => (text.push replacement, ⟨[]⟩)

/-- Take one byte, and add to `text` the characters that it settles.  If the byte does not go with
the bytes held back, those are given up and the byte begins anew. -/
def Decoder.step (text : String) (d : Decoder) (b : UInt8) : String × Decoder :=
  if d.held.isEmpty then Decoder.start text b
  else
    match read (d.held ++ [b]) with
    | .complete c => (text.push c, ⟨[]⟩)
    | .partway => (text, ⟨d.held ++ [b]⟩)
    | .broken => Decoder.start (text.push replacement) b

/-- Take a piece of the input; gives the text it settles. -/
def Decoder.decode (d : Decoder) (bytes : List UInt8) : String × Decoder :=
  bytes.foldl (fun st b => Decoder.step st.1 st.2 b) ("", d)

/-- Give up what is held back. -/
def Decoder.flush (d : Decoder) : String × Decoder :=
  (if d.held.isEmpty then "" else String.singleton replacement, ⟨[]⟩)

/-- Some bytes wait for the rest of their character. -/
def Decoder.hasPending (d : Decoder) : Bool := !d.held.isEmpty

end AgentSurface.Text.Utf8
