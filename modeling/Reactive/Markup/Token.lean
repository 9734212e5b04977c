/-
  Tokens of markup.
-/

namespace Reactive.Markup

/-- An attribute in a tag. -/
structure Attr where
  name : String
  value : String
deriving DecidableEq, Repr, Inhabited

/-- A start or end tag. -/
structure Tag where
  isStart : Bool
  name : String
  attrs : List Attr
  selfClosing : Bool
deriving DecidableEq, Repr, Inhabited

/-- A token. Characters come in runs that are blank throughout or hold no blank. -/
inductive Token where
  /-- A document type, and whether it asks for the old rules of layout. -/
  | doctype (oldRules : Bool)
  | tag (tag : Tag)
  | comment
  | chars (blank : Bool) (text : List Char)
  | null
  | endOfInput
deriving DecidableEq, Repr, Inhabited

/-- How text is read, as the element that holds it asks. -/
inductive ContentModel where
  | data
  /-- Text with references, up to the end tag of the name. -/
  | rcdata (name : String)
  /-- Plain text up to the end tag of the name. -/
  | rawtext (name : String)
  /-- A script, up to its end tag. -/
  | script
  /-- Plain text up to the end. -/
  | plaintext
deriving DecidableEq, Repr, Inhabited

/-- A blank of markup. -/
def isMarkupBlank (c : Char) : Bool :=
  c == ' ' || c == '\t' || c == '\n' || c == '\x0c' || c == '\r'

/-- Characters as tokens: runs of blanks and of others, and null characters on their own. -/
def charTokens : List Char → List Token
  | [] => []
  | c :: cs =>
    if c == '\x00' then .null :: charTokens cs
    else match charTokens cs with
      | .chars blank text :: rest =>
        if blank == isMarkupBlank c then .chars blank (c :: text) :: rest
        else .chars (isMarkupBlank c) [c] :: .chars blank text :: rest
      | rest => .chars (isMarkupBlank c) [c] :: rest

end Reactive.Markup
