/-
  Printing comments.

  A comment is printed where the token it leads starts a statement, a directive, a class
  member, an argument, an object, a handler or a name in an export list, and before the
  closing brace of a function body. A comment is printed once: looking it up takes it away.
  A comment that is a hint is never printed as a comment: what it leads prints the hint.
-/
import Reactive.Text.Blank
import Reactive.Text.Search
import Reactive.Script.Printer.Page

namespace Reactive.Script.Printer

open Reactive.Text

/-! ## Looking comments up -/

/-- The comments that lead the token at an offset. -/
def leading (comments : List Comment) (offset : Nat) : List Comment :=
  comments.filter fun c => c.leads == some offset && c.hint?.isNone

/-- Whether a comment leads the token at an offset. -/
def hasComment (offset : Nat) : Writer Bool := return !(leading (← get).comments offset).isEmpty

/-- Takes the comments that lead the token at an offset. -/
def takeComments (offset : Nat) : Writer (List Comment) := do
  let p ← get
  set { p with comments := p.comments.filter fun c => c.leads != some offset }
  return leading p.comments offset

/-! ## Text -/

/-- The lines of a comment, cut at every line end. -/
def commentLines : List Char → List (List Char)
  | [] => [[]]
  | '\r' :: '\n' :: cs => [] :: commentLines cs
  | c :: cs =>
    if isLineEnd c then [] :: commentLines cs
    else match commentLines cs with
      | [] => [[c]]
      | l :: ls => (c :: l) :: ls

/-- One line of a comment that spans lines. -/
def commentLine (line : List Char) : Writer Unit := do
  unless "/*".toList.isPrefixOf line do indent
  chars (guardClosingTag (trimLeft line))
  unless "*/".toList.isSuffixOf line do put "\n"

/-- One comment. -/
def comment (c : Comment) : Writer Unit :=
  match c.kind with
  | .line | .block => chars (guardClosingTag c.text)
  | .lines => (commentLines c.text).forM commentLine

/-- A comment that a licence asks to keep. -/
def isLegal (c : Comment) : Bool :=
  let inner := c.text.drop 2
  inner.head? == some '!' || occursIn "@license".toList inner
    || occursIn "@preserve".toList inner

/-! ## Comments before statements -/

/-- The gap before the first of some comments. -/
def beforeFirst (c : Comment) : Writer Unit := do
  if c.newlineBefore then
    match ← lastChar with
    | none | some '\t' => pure ()
    | some '\n' => indent
    | some _ =>
      put "\n"
      indent
  else indent

/-- A line break follows the comment. -/
def endsLine (c : Comment) : Bool := c.kind = .line || c.newlineAfter

/-- The gap between two comments: a new line where the first one ended its line. -/
def between (previous next : Comment) : Writer Unit := do
  if endsLine previous then
    put "\n"
    indent
  else if isLegal next then put "\n"
  else put " "

/-- The comments behind another one. -/
def furtherComments : Comment → List Comment → Writer Unit
  | previous, [] => if endsLine previous then put "\n" else nothing
  | previous, c :: cs => do
    between previous c
    comment c
    furtherComments c cs

/-- Comments in a row, with the line break behind the last one. -/
def commentRow (cs : List Comment) : Writer Unit := do
  match cs with
  | [] => nothing
  | first :: rest =>
    beforeFirst first
    comment first
    furtherComments first rest

/-- The comments that lead the token at an offset; where no line break follows them, what they
lead goes on in their line. -/
def commentsAt (offset : Nat) : Writer Unit := do
  let cs ← takeComments offset
  commentRow cs
  match cs.getLast? with
  | some c => unless endsLine c do modify fun p => { p with joinLine := true }
  | none => nothing

/-- The comments that lead the token at an offset, with a blank behind them. -/
def commentsBefore (offset : Nat) : Writer Unit := do
  let cs ← takeComments offset
  unless cs.isEmpty do
    commentRow cs
    put " "

/-! ## Comments before arguments -/

/-- The comments that lead an argument, each on its line; tells whether there were any. -/
def argumentComments (offset : Nat) : Writer Bool := do
  let cs ← takeComments offset
  cs.forM fun c => do
    put "\n"
    indent
    comment c
  unless cs.isEmpty do put "\n"
  return !cs.isEmpty

end Reactive.Script.Printer
