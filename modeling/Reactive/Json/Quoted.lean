/-
  String literals of JSON.

  Quotes, backslashes and control characters are escaped, everything else stands for
  itself. A literal therefore never holds a line end, and it is also a literal of the
  scripts that compiled components are.
-/

namespace Reactive.Json

/-- A hexadecimal digit. -/
def hexDigit (n : Nat) : Char :=
  if n < 10 then Char.ofNat (48 + n) else Char.ofNat (87 + n)

/-- A character inside a literal. -/
def escapeChar (c : Char) : List Char :=
  if c = '"' then ['\\', '"']
  else if c = '\\' then ['\\', '\\']
  else if c = '\x08' then ['\\', 'b']
  else if c = '\t' then ['\\', 't']
  else if c = '\n' then ['\\', 'n']
  else if c = '\x0c' then ['\\', 'f']
  else if c = '\r' then ['\\', 'r']
  else if c.toNat < 32 then ['\\', 'u', '0', '0', hexDigit (c.toNat / 16), hexDigit (c.toNat % 16)]
  else [c]

/-- The characters of a literal without its quotes. -/
def escape (cs : List Char) : List Char := cs.flatMap escapeChar

/-- A string literal as characters. -/
def quoteChars (cs : List Char) : List Char := '"' :: (escape cs ++ ['"'])

/-- A string literal. -/
def quote (s : String) : String := String.ofList (quoteChars s.toList)

end Reactive.Json
