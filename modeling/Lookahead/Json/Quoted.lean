/-!
# Strings in JSON

A JSON string stands between quotation marks. The quotation mark and the backslash are written
with a backslash in front, and so are the control characters, five of which have a letter of their
own; all other characters stand for themselves.
-/

namespace Lookahead.Json

/-- The escape of a control character without a letter of its own: four hexadecimal digits. -/
def controlEscape (c : Char) : List Char :=
  ['\\', 'u', '0', '0', Nat.digitChar (c.toNat / 16), Nat.digitChar (c.toNat % 16)]

/-- How a character is written inside a string. -/
def escapeChar (c : Char) : List Char :=
  if c = '"' then ['\\', '"']
  else if c = '\\' then ['\\', '\\']
  else if c = '\x08' then ['\\', 'b']
  else if c = '\x09' then ['\\', 't']
  else if c = '\x0a' then ['\\', 'n']
  else if c = '\x0c' then ['\\', 'f']
  else if c = '\x0d' then ['\\', 'r']
  else if c.toNat < 0x20 then controlEscape c
  else [c]

/-- A string with its quotation marks. -/
def quote (s : String) : List Char :=
  '"' :: s.toList.flatMap escapeChar ++ ['"']

end Lookahead.Json
