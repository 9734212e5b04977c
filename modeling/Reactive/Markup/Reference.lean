/-
  Character references.

  A reference starts with an ampersand and names a character by number or by name. Of the
  names that fit, the longest counts. Inside an attribute a name without a semicolon is no
  reference if a letter, a digit or an equals sign follows.
-/
import Reactive.Markup.Entity

namespace Reactive.Markup

/-! ## Numbers -/

/-- What the numbers from 0x80 to 0x9F stand for; zero where a number stands for itself. -/
def c1Replacements : List Nat := [
  0x20AC, 0, 0x201A, 0x0192, 0x201E, 0x2026, 0x2020, 0x2021,
  0x02C6, 0x2030, 0x0160, 0x2039, 0x0152, 0, 0x017D, 0,
  0, 0x2018, 0x2019, 0x201C, 0x201D, 0x2022, 0x2013, 0x2014,
  0x02DC, 0x2122, 0x0161, 0x203A, 0x0153, 0, 0x017E, 0x0178]

/-- The character that stands for what cannot be shown. -/
def replacement : Char := '\ufffd'

/-- The character with a number. -/
def numberedChar (n : Nat) : Char :=
  if n = 0 || n > 0x10FFFF || (0xD800 ≤ n && n ≤ 0xDFFF) then replacement
  else if 0x80 ≤ n && n ≤ 0x9F then
    match c1Replacements.getD (n - 0x80) 0 with
    | 0 => Char.ofNat n
    | m => Char.ofNat m
  else Char.ofNat n

/-- The character is a hexadecimal digit. -/
def isHexDigit (c : Char) : Bool :=
  c.isDigit || ('a' ≤ c && c ≤ 'f') || ('A' ≤ c && c ≤ 'F')

/-- A text without a semicolon at its front. -/
def skipSemicolon : List Char → List Char
  | ';' :: cs => cs
  | cs => cs

/-- A number behind `&#`. -/
def numeric? (cs : List Char) : Option (List Char × List Char) :=
  let read (isDigit : Char → Bool) (base : Nat) (cs : List Char) :=
    match cs.takeWhile isDigit with
    | [] => none
    | ds =>
      let digit (c : Char) := if c.isDigit then c.toNat - 48 else c.toLower.toNat - 87
      let n := ds.foldl (fun n c => n * base + digit c) 0
      some ([numberedChar n], skipSemicolon (cs.dropWhile isDigit))
  match cs with
  | 'x' :: rest | 'X' :: rest => read isHexDigit 16 rest
  | _ => read Char.isDigit 10 cs

/-! ## Names -/

/-- The longest name without a semicolon that the first `n` characters of a word start with. -/
def longestBare (word : List Char) : Nat → Option (List Char × Nat)
  | 0 => none
  | n + 1 =>
    match bareReferences[String.ofList (word.take (n + 1))]? with
    | some value => some (value, n + 1)
    | none => longestBare word n

/-- A name behind `&`. -/
def named? (inAttribute : Bool) (cs : List Char) : Option (List Char × List Char) :=
  let word := cs.takeWhile Char.isAlphanum
  let rest := cs.dropWhile Char.isAlphanum
  let whole := match rest with
    | ';' :: more => (references[String.ofList word]?).map fun value => (value, more)
    | _ => none
  match whole with
  | some found => some found
  | none =>
    match longestBare word (min word.length 8) with
    | none => none
    | some (value, n) =>
      let rest := cs.drop n
      let blocked := match rest with
        | c :: _ => c == '=' || c.isAlphanum
        | [] => false
      if inAttribute && blocked then none else some (value, rest)

/-- The reference behind an ampersand: what it stands for and the rest of the text. -/
def reference? (inAttribute : Bool) (cs : List Char) : Option (List Char × List Char) :=
  match cs with
  | '#' :: rest => numeric? rest
  | _ => named? inAttribute cs

end Reactive.Markup
