/-
  The page a script is printed on.

  Text is only ever added at the end. Beside the text the page keeps what the next piece
  of text needs to know: the depth of indentation, the comments still to be printed, and
  a few marks. A mark is a position on the page and counts only while nothing has been
  written since, for instance "a statement starts here".
-/
import Reactive.Script.Token
import Reactive.Script.Lexer

namespace Reactive.Script.Printer

/-- A page being written. -/
structure Page where
  /-- The text so far, last character first. -/
  reversed : List Char
  /-- The number of characters so far. -/
  size : Nat
  /-- Tabs at the start of a line. -/
  depth : Nat
  /-- The next indentation is one space. -/
  joinLine : Bool
  /-- Where a statement starts. -/
  statementStart : Option Nat
  /-- Where the expression body of an arrow starts. -/
  arrowStart : Option Nat
  /-- Where a default export starts. -/
  defaultStart : Option Nat
  /-- Where a sign or increment ends, and its last character. -/
  signEnd : Option (Nat × Char)
  /-- Where a regular expression ends. -/
  regexEnd : Option Nat
  /-- Where a number ends that a dot would continue. -/
  integerEnd : Option Nat
  /-- Comments not yet printed. -/
  comments : List Comment
deriving Inhabited

/-- Adding something to the page. -/
abbrev Writer (α : Type) := StateM Page α

/-- An empty page for a script with these comments. -/
def Page.blank (comments : List Comment) : Page :=
  ⟨[], 0, 0, false, none, none, none, none, none, none, comments⟩

/-- The text of the page. -/
def Page.text (p : Page) : List Char := p.reversed.reverse

/-- Writes characters. -/
def chars (cs : List Char) : Writer Unit :=
  modify fun p => { p with reversed := cs.reverse ++ p.reversed, size := p.size + cs.length }

/-- Writes a text. -/
def put (s : String) : Writer Unit := chars s.toList

/-- Writes nothing. -/
def nothing : Writer Unit := pure ()

/-- The last character written. -/
def lastChar : Writer (Option Char) := return (← get).reversed.head?

/-- Writes one more tab at the start of each line of a piece. -/
def indented (w : Writer Unit) : Writer Unit := do
  modify fun p => { p with depth := p.depth + 1 }
  w
  modify fun p => { p with depth := p.depth - 1 }

/-- The start of a line: tabs, or one space where the line goes on. -/
def indent : Writer Unit := do
  let p ← get
  if p.joinLine then
    set { p with joinLine := false }
    put " "
  else chars (List.replicate p.depth '\t')

/-- Parentheses around a piece, if needed. -/
def wrapIf (b : Bool) (w : Writer Unit) : Writer Unit := do
  if b then
    put "("
    w
    put ")"
  else w

/-- A space where a word would run into the text before it. -/
def wordBreak : Writer Unit := do
  let p ← get
  match p.reversed.head? with
  | none => pure ()
  | some c => if isNamePart c || p.regexEnd == some p.size then put " "

/-- Writes a word. -/
def word (s : String) : Writer Unit := do
  wordBreak
  put s

/-- Marks this place as the end of a sign. -/
def markSign (c : Char) : Writer Unit :=
  modify fun p => { p with signEnd := some (p.size, c) }

/-- A space where a sign would run into an equal one. -/
def signBreak (c : Char) : Writer Unit := do
  let p ← get
  if p.signEnd == some (p.size, c) && (c == '+' || c == '-') then put " "

/-- Marks this place as the start of a statement. -/
def markStatement : Writer Unit := modify fun p => { p with statementStart := some p.size }

/-- Marks this place as the start of the body of an arrow. -/
def markArrow : Writer Unit := modify fun p => { p with arrowStart := some p.size }

/-- Marks this place as the start of a default export. -/
def markDefault : Writer Unit := modify fun p => { p with defaultStart := some p.size }

/-- A statement starts here. -/
def atStatement : Writer Bool := return (← get).statementStart == some (← get).size

/-- The body of an arrow starts here. -/
def atArrow : Writer Bool := return (← get).arrowStart == some (← get).size

/-- A default export starts here. -/
def atDefault : Writer Bool := return (← get).defaultStart == some (← get).size

/-! ## Closing tags inside scripts -/

/-- The text goes on with `script`, in any case. -/
def startsScript (cs : List Char) : Bool := (cs.take 6).map Char.toLower == "script".toList

/-- The text with a backslash in every `</script`, so that a page holding the script is not cut
short. -/
def guardClosingTag : List Char → List Char
  | '<' :: '/' :: cs =>
    if startsScript cs then '<' :: '\\' :: '/' :: guardClosingTag cs
    else '<' :: guardClosingTag ('/' :: cs)
  | c :: cs => c :: guardClosingTag cs
  | [] => []

end Reactive.Script.Printer
