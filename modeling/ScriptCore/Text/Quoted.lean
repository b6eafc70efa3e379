/-!
# Quoted text

A string is written between single quotes.  Tabs, line ends, quotes and the
backslash are escaped by name, other printable ASCII characters stand for
themselves, and every remaining character is written as its code point in
lower-case hexadecimal between braces.
-/

namespace ScriptCore

namespace Quoted

/-- Whether a character is printable ASCII. -/
def isPlain (c : Char) : Bool := 0x20 ≤ c.toNat && c.toNat ≤ 0x7e

/-- A character as its code point in hexadecimal. -/
def codePoint (c : Char) : List Char :=
  ['\\', 'u', Char.ofNat 0x7b] ++ Nat.toDigits 16 c.toNat ++ [Char.ofNat 0x7d]

/-- One character of a quoted string. -/
def escape (c : Char) : List Char :=
  if c = '\t' then ['\\', 't']
  else if c = '\n' then ['\\', 'n']
  else if c = '\r' then ['\\', 'r']
  else if c = '\'' then ['\\', '\'']
  else if c = '"' then ['\\', '"']
  else if c = '\\' then ['\\', '\\']
  else if isPlain c then [c]
  else codePoint c

/-- A string between single quotes. -/
def write (text : String) : List Char :=
  '\'' :: (text.toList.flatMap escape ++ ['\''])

end Quoted

end ScriptCore
