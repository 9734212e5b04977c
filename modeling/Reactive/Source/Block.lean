/-
  Script and style blocks of a source.

  A block starts with its tag, which may carry attributes, and ends with the first closing
  tag after that. Tag names are matched in any case, where the long s counts as an s.
-/
import Reactive.Component.Codec
import Reactive.Text.Blank
import Reactive.Text.Letters

namespace Reactive.Source

open Reactive.Text

/-! ## Matching in any case -/

/-- The character is a given lower case letter in some case; two signs outside ASCII count as
letters. -/
def sameLetter (letter c : Char) : Bool :=
  c.toLower == letter || (letter == 's' && c == '\u017f') || (letter == 'k' && c == '\u212a')

/-- The rest of a text behind a word given in lower case. -/
def afterWord? : List Char → List Char → Option (List Char)
  | [], cs => some cs
  | _ :: _, [] => none
  | w :: ws, c :: cs => if sameLetter w c then afterWord? ws cs else none

/-- No word goes on at the start of a text. -/
def wordEnds : List Char → Bool
  | [] => true
  | c :: _ => !isWordChar c

/-! ## Blocks -/

/-- A block: the text in its tag and the text between its tags. -/
structure Block where
  attributes : List Char
  body : List Char
deriving Repr, Inhabited

/-- A text up to the first closing tag, and the rest behind it. -/
def untilClosing? (closing : List Char) : List Char → Option (List Char × List Char)
  | [] => none
  | c :: cs =>
    match afterWord? closing (c :: cs) with
    | some rest => some ([], rest)
    | none => (untilClosing? closing cs).map fun (b, rest) => (c :: b, rest)

/-- A text up to the first `>`, and the rest behind it. -/
def untilTagEnd? : List Char → Option (List Char × List Char)
  | [] => none
  | '>' :: cs => some ([], cs)
  | c :: cs => (untilTagEnd? cs).map fun (a, rest) => (c :: a, rest)

/-- The block at the front of a text, and the rest behind it. -/
def blockAt? (name : String) (cs : List Char) : Option (Block × List Char) := do
  let rest ← afterWord? ('<' :: name.toList) cs
  if !wordEnds rest then none
  let (attributes, rest) ← untilTagEnd? rest
  let (body, rest) ← untilClosing? ('<' :: '/' :: name.toList ++ ['>']) rest
  return (⟨attributes, body⟩, rest)

/-- The blocks of a name, and the text without them. A block is longer than nothing, so as many
steps as the text has characters are enough. -/
def cutBlocks (name : String) : Nat → List Char → List Block × List Char
  | 0, cs => ([], cs)
  | _, [] => ([], [])
  | fuel + 1, c :: cs =>
    match blockAt? name (c :: cs) with
    | some (b, rest) =>
      let (bs, text) := cutBlocks name fuel rest
      (b :: bs, text)
    | none =>
      let (bs, text) := cutBlocks name fuel cs
      (bs, c :: text)

/-- The blocks of a name in a text. -/
def blocks (name : String) (cs : List Char) : List Block := (cutBlocks name cs.length cs).1

/-- A text without the blocks of a name. -/
def withoutBlocks (name : String) (cs : List Char) : List Char := (cutBlocks name cs.length cs).2

/-- The markup of a source: without its script blocks, then without its style blocks. -/
def markup (source : List Char) : List Char :=
  withoutBlocks "style" (withoutBlocks "script" source)

/-! ## Attributes -/

/-- The character can stand in the name of an attribute. -/
def isAttributeChar (c : Char) : Bool :=
  c.isAlphanum || c == ':' || c == '_' || c == '-' || c == '\u017f' || c == '\u212a'

/-- A text up to a quote, and the rest behind it. -/
def untilQuote? (quote : Char) (cs : List Char) : Option (List Char × List Char) :=
  match cs.dropWhile (· != quote) with
  | [] => none
  | _ :: rest => some (cs.takeWhile (· != quote), rest)

/-- A value without quotes: up to a blank or `>`, and not empty. -/
def bareValue? (cs : List Char) : Option (List Char × List Char) :=
  let isPart (c : Char) : Bool := c != '>' && !isBlank c
  match cs.takeWhile isPart with
  | [] => none
  | v => some (v, cs.dropWhile isPart)

/-- A value behind the equals sign. A quote that is not closed belongs to the value. -/
def attributeValue? (cs : List Char) : Option (List Char × List Char) :=
  match cs with
  | '"' :: rest => (untilQuote? '"' rest).or (bareValue? cs)
  | '\'' :: rest => (untilQuote? '\'' rest).or (bareValue? cs)
  | _ => bareValue? cs

/-- The value behind a name; nothing is consumed if there is none. -/
def optionalValue (cs : List Char) : List Char × List Char :=
  match cs with
  | '=' :: rest => (attributeValue? rest).getD ([], cs)
  | _ => ([], cs)

/-- The attributes in the text of a tag, in order. -/
def attributesIn : Nat → List Char → List (String × String)
  | 0, _ => []
  | _, [] => []
  | fuel + 1, c :: cs =>
    if isAttributeChar c then
      let name := (c :: cs).takeWhile isAttributeChar
      let (value, rest) := optionalValue ((c :: cs).dropWhile isAttributeChar)
      (String.ofList name, String.ofList value) :: attributesIn fuel rest
    else attributesIn fuel cs

/-- The attributes of a block, sorted by name; the last value of a name wins. -/
def Block.attributeFields (b : Block) : List (String × String) :=
  sortedFields (attributesIn b.attributes.length b.attributes)

end Reactive.Source
