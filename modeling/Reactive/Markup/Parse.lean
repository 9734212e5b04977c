/-
  Reading a document.

  Tokens are read one piece of text at a time, since the elements that are open decide how
  the next piece is read.
-/
import Reactive.Markup.Dom
import Reactive.Markup.Tokenizer
import Reactive.Markup.Builder.Document

namespace Reactive.Markup

/-- Sections of plain characters are allowed: the current element is part of a drawing or
formula. -/
def Builder.allowsSections (b : Builder) : Bool :=
  !b.stack.isEmpty && b.currentName.space != .html

/-- Reads a text piece by piece; every piece is longer than nothing. -/
def buildWithin : Nat → List Char → Build Unit
  | 0, _ => Build.take .endOfInput
  | _, [] => Build.take .endOfInput
  | fuel + 1, cs => do
    let b ← get
    let (tokens, rest) := readTokens b.content b.allowsSections cs
    tokens.forM Build.take
    buildWithin fuel rest

/-- The document that a text stands for, as the nodes at its top. -/
def parseDocument (source : List Char) : List Dom :=
  let text := uniformLines (dropOrderMark source)
  ((buildWithin (text.length + 1) text).run .start).2.arena.document

end Reactive.Markup
