/-
  Parts of a printed node.

  Printing is one fold over the tree. At a node, each child comes as a part: the child
  itself, to look at, and the writer that prints it once it is told in what mode.
-/
import Reactive.Script.Operator
import Reactive.Script.Printer.Comment
import Reactive.Script.Printer.Literal

namespace Reactive.Script.Printer

/-- What the surroundings ask of a node. -/
structure Mode where
  /-- Expressions that bind no stronger than this level need parentheses. -/
  level : Nat := Level.lowest
  /-- `in` needs parentheses, since a loop head would take it for its own. -/
  forbidIn : Bool := false
  /-- Calls need parentheses, since `new` would take their arguments. -/
  forbidCall : Bool := false
  /-- Only the core of the node: a statement without line and semicolon, the body of an arrow
  without braces. -/
  core : Bool := false
deriving Inhabited

/-- The marks of a mode that reach into the body of a method. -/
def Mode.inherited (m : Mode) : Mode := { forbidIn := m.forbidIn, forbidCall := m.forbidCall }

/-- A child and how it is printed. -/
abbrev Part := Tree × (Mode → Writer Unit)

namespace Part

/-- The child. -/
def tree (p : Part) : Tree := p.1

/-- The label of the child. -/
def label (p : Part) : Label := p.1.label

/-- The offset at which the child starts. -/
def start (p : Part) : Nat := p.1.span.start

/-- The child is missing. -/
def isAbsent (p : Part) : Bool := p.1.isAbsent

/-- Prints the child. -/
def print (p : Part) (m : Mode) : Writer Unit := p.2 m

/-- Prints an expression at a level. -/
def level (p : Part) (l : Nat) : Writer Unit := p.2 { level := l }

/-- Prints the target of an assignment. A member stands as in an expression of its own, whatever
is asked of the assignment. -/
def target (p : Part) (m : Mode) : Writer Unit :=
  match p.label with
  | .member _ | .index _ | .privateMember _ => p.level Level.comma
  | _ => p.2 m

/-- Prints the core of a child. -/
def core (p : Part) : Writer Unit := p.2 { core := true }

end Part

/-- A statement on its own line: its comments, the indentation, its text. The core of a statement
is the text alone. -/
def line (span : Span) (m : Mode) (text : Writer Unit) ( ending : String) : Writer Unit := do
  if m.core then text
  else
    commentsAt span.start
    indent
    text
    put ending

/-- The part at a place; a missing child if there is none. -/
def nth (ps : List Part) (i : Nat) : Part := ps.getD i (Tree.absent, fun _ => nothing)

/-- Pieces with `separator` between them. -/
def separated (separator : Writer Unit) : List (Writer Unit) → Writer Unit
  | [] => nothing
  | [w] => w
  | w :: ws => do
    w
    separator
    separated separator ws

/-- Pieces in a row, with commas. -/
def commas (ws : List (Writer Unit)) : Writer Unit := separated (put ", ") ws

/-- Pieces in braces on lines of their own, each writing its own lines. -/
def openBraces (ws : List (Writer Unit)) : Writer Unit := do
  put "\x7b\n"
  indented (ws.forM id)
  indent
  put "\x7d"

/-- Pieces in braces; without any, the braces stand together. -/
def braces (ws : List (Writer Unit)) : Writer Unit :=
  if ws.isEmpty then put "\x7b\x7d" else openBraces ws

/-- Pieces on lines of their own, with commas, between two brackets. -/
def stacked (opening closing : String) (ws : List (Writer Unit)) : Writer Unit := do
  put opening
  indented do
    put "\n"
    indent
    separated (do put ",\n"; indent) ws
  put "\n"
  indent
  put closing

end Reactive.Script.Printer
