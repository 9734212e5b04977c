/-
  Printing literals.

  Strings stand in double quotes whatever quotes they were written with; numbers are
  printed by value; regular expressions and template texts keep their source form.
-/
import Reactive.Script.Number
import Reactive.Script.Printer.Page

namespace Reactive.Script.Printer

/-! ## Strings -/

/-- Four hexadecimal digits. -/
def hexUnit (n : Nat) : List Char :=
  (Nat.toDigits 16 (n / 4096 % 16)) ++ (Nat.toDigits 16 (n / 256 % 16)) ++
  (Nat.toDigits 16 (n / 16 % 16)) ++ (Nat.toDigits 16 (n % 16))

/-- The character with this number is a decimal digit. -/
def isDigitCode (n : Nat) : Bool := 48 ≤ n && n ≤ 57

/-- One code point inside a string, given the code points behind it. -/
def stringChar (n : Nat) (rest : List Nat) : List Char :=
  match n with
  | 0 => if (rest.head?.map isDigitCode).getD false then "\\x00".toList else "\\0".toList
  | 0x07 => "\\x07".toList
  | 0x08 => "\\b".toList
  | 0x0A => "\\n".toList
  | 0x0B => "\\v".toList
  | 0x0C => "\\f".toList
  | 0x0D => "\\r".toList
  | 0x1B => "\\x1B".toList
  | 0x22 => "\\\"".toList
  | 0x5C => "\\\\".toList
  | 0xA0 => "\\xA0".toList
  | 0x2028 => "\\u2028".toList
  | 0x2029 => "\\u2029".toList
  | n => if isHighSurrogate n || isLowSurrogate n then '\\' :: 'u' :: hexUnit n else [Char.ofNat n]

/-- The code points inside a string. -/
def stringText : List Nat → List Char
  | [] => []
  | n :: ns => stringChar n ns ++ stringText ns

/-- A string in double quotes. -/
def string (value : List Nat) : Writer Unit :=
  chars ('"' :: guardClosingTag (stringText value) ++ ['"'])

/-! ## Directives -/

/-- The quote for a directive: single if a double one comes first in it, escapes aside. -/
def directiveQuote : List Char → Char
  | [] => '"'
  | '\\' :: _ :: cs => directiveQuote cs
  | c :: cs =>
    if c == '"' then '\''
    else if c == '\'' then '"'
    else directiveQuote cs

/-- A directive as it was written, apart from its quotes. -/
def directive (raw : String) : Writer Unit := do
  let q := directiveQuote raw.toList
  chars (q :: raw.toList ++ [q])

/-! ## Numbers -/

/-- A number. A plain integer is marked, since a dot behind it would read as its point. -/
def number (value : Number) : Writer Unit := do
  wordBreak
  let t := value.text
  chars t
  if value != .infinite && Number.plainDigits t then
    modify fun p => { p with integerEnd := some p.size }

/-- A big integer. -/
def bigint (value : Nat) : Writer Unit := do
  wordBreak
  chars (Nat.toDigits 10 value ++ ['n'])

/-! ## Regular expressions -/

/-- A regular expression, set off from a slash before it and from a `<` that it would turn into a
closing tag. -/
def regex (pattern flags : String) : Writer Unit := do
  match ← lastChar with
  | some '/' => put " "
  | some '<' => if startsScript pattern.toList then put " "
  | _ => pure ()
  put ("/" ++ pattern ++ "/" ++ flags)
  modify fun p => { p with regexEnd := some p.size }

end Reactive.Script.Printer
