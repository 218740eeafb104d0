import AgentSurface.Text.HiddenTable

/-!
# Text — texts that are shown in quotes

A text in a message or a listing stands in quotes.  Quotes and backslashes in it are escaped, and so
are line ends, tabs and all characters without a printed form.
-/

namespace AgentSurface.Text

/-- A character inside quotes. -/
def showChar (c : Char) : List Char :=
  if c = '"' then ['\\', '"']
  else if c = '\\' then ['\\', '\\']
  else if c = '\n' then ['\\', 'n']
  else if c = '\r' then ['\\', 'r']
  else if c = '\t' then ['\\', 't']
  else if c = '\x00' then ['\\', '0']
  else if isHidden c then '\\' :: 'u' :: '{' :: (Nat.toDigits 16 c.toNat ++ ['}'])
  else [c]

/-- A text in quotes. -/
def inQuotes (s : String) : String :=
  String.ofList ('"' :: (s.toList.flatMap showChar ++ ['"']))

/-- Texts in quotes, as a list. -/
def listInQuotes (texts : List String) : String :=
  "[" ++ String.intercalate ", " (texts.map inQuotes) ++ "]"

end AgentSurface.Text
