/-
  Tokens and comments of a script.

  A token knows the byte range it was read from and whether a line break stands before
  it. Comments are kept beside the tokens: one that leads the next token is attached to
  the start of that token, and is printed again only where it leads something; one that
  trails a token on its line is forgotten.
-/
import Reactive.Script.Tree

namespace Reactive.Script

/-- What a token is. Keywords are words too: which words are reserved depends on the place. -/
inductive TokenKind where
  | endOfInput
  | word (name : String)
  | privateName (name : String)
  | number (value : Number)
  | bigint (value : Nat)
  | string (value : List Nat)
  /-- A piece of a template up to the next hole, or to its end if `last`. `valid` tells whether
  its escapes have a meaning. -/
  | template (raw : String) (valid last : Bool)
  | punct (text : String)
deriving DecidableEq, Repr, Inhabited

/-- What a comment tells tools that drop unused code. -/
inductive Hint where
  /-- The call that follows may be dropped if its value is not used. -/
  | pureCall
  /-- Calls of the function that follows have no effect. -/
  | quietFunction
deriving DecidableEq, Repr, Inhabited

/-- A token in its place. -/
structure Token where
  kind : TokenKind
  start : Nat
  stop : Nat
  /-- A line break stands between this token and the one before. -/
  newlineBefore : Bool
  /-- A word written with escapes. -/
  escaped : Bool
  /-- The hints between this token and the one before. -/
  hints : List Hint
deriving Repr, Inhabited

/-! ## Comments -/

inductive CommentKind where
  | line
  | block
  /-- A block comment that spans lines. -/
  | lines
deriving DecidableEq, Repr, Inhabited

/-- The blanks that may stand before a hint. -/
def isHintBlank (c : Char) : Bool :=
  c == ' ' || c == '\t' || c == '\n' || c == '\r' || c == '\x0c'

/-- The hint that a comment is: its text, blanks aside, starts with the mark. -/
def Hint.ofComment? (text : List Char) : Option Hint :=
  match (text.drop 2).dropWhile isHintBlank with
  | '@' :: rest | '#' :: rest =>
    if "__PURE__".toList.isPrefixOf rest then some .pureCall
    else if "__NO_SIDE_EFFECTS__".toList.isPrefixOf rest then some .quietFunction
    else none
  | _ => none

/-- A comment. `leads` is the start of the token it is attached to, if any. -/
structure Comment where
  kind : CommentKind
  text : List Char
  leads : Option Nat
  newlineBefore : Bool
  newlineAfter : Bool
deriving Repr, Inhabited

/-- The hint that the comment is. -/
def Comment.hint? (c : Comment) : Option Hint := Hint.ofComment? c.text

/-- What has been seen since the last token. -/
structure Trivia where
  /-- Comments whose place is settled, latest first. -/
  settled : List Comment
  /-- Comments that the next token will be led by, latest first. -/
  waiting : List Comment
  /-- A line break has been seen since the last token. -/
  newline : Bool
  /-- The last token was `=` or `(`, after which no comment trails. -/
  afterOpener : Bool
  /-- Hints seen since the last token, latest first. -/
  hints : List Hint
deriving Repr, Inhabited

namespace Trivia

/-- Nothing read yet; the start of the text counts as the start of a line. -/
def start : Trivia := ⟨[], [], true, false, []⟩

/-- Notes the hint that a comment may be. -/
def addHint (t : Trivia) (text : List Char) : Trivia :=
  { t with hints := (Hint.ofComment? text).toList ++ t.hints }

/-- A line comment trails the token before it on its line, except after an opener. -/
def addLine (t : Trivia) (text : List Char) : Trivia :=
  let c : Comment := ⟨.line, text, none, t.newline, true⟩
  let t := t.addHint text
  if !t.newline && !t.afterOpener then
    { t with settled := c :: (t.waiting ++ t.settled), waiting := [], newline := true }
  else { t with waiting := c :: t.waiting, newline := true }

/-- A block comment waits for what follows it. -/
def addBlock (t : Trivia) (kind : CommentKind) (text : List Char) : Trivia :=
  { t.addHint text with waiting := ⟨kind, text, none, t.newline, false⟩ :: t.waiting }

/-- A line break: comments waiting on the line of the last token trail it. -/
def addNewline (t : Trivia) : Trivia :=
  match t.waiting with
  | [] => { t with newline := true }
  | c :: cs =>
    let waiting := { c with newlineAfter := true } :: cs
    if t.newline then { t with waiting := waiting, newline := true }
    else { t with settled := waiting ++ t.settled, waiting := [], newline := true }

/-- A token: the waiting comments lead it. -/
def addToken (t : Trivia) (start : Nat) (opener : Bool) : Trivia :=
  { settled := t.waiting.map (fun c => { c with leads := some start }) ++ t.settled
    waiting := []
    newline := false
    afterOpener := opener
    hints := [] }

/-- All comments that lead a token, first to last. -/
def leading (t : Trivia) : List Comment :=
  (t.settled.filter (·.leads.isSome)).reverse

end Trivia

end Reactive.Script
