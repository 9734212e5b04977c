/-
  Pieces of script given as text.

  The expressions of a template and the bodies of its declarations are kept as text. They
  are printed anew before they are put into a compiled component; text that cannot be read
  stands for itself.
-/
import Reactive.Script.Names
import Reactive.Script.Print
import Reactive.Text.Blank

namespace Reactive.Script

open Reactive.Text

/-- Whether a text starts with an expression; the reason if it does not. -/
def checkExpression (code : String) : Except String Unit := do
  discard (parseExpression code.toList)

/-- The free names of the expression that a text starts with; none if it cannot be read. -/
def freeNames (code : String) : List String :=
  match parseExpression code.toList with
  | .ok t => t.freeNames
  | .error _ => []

/-- The text has neither fault nor flaw. -/
def sound? (code : List Char) : Option Program :=
  match soundModule code with
  | .ok p => some p
  | .error _ => none

/-- The expression of a program that is one expression statement. -/
def Program.soleExpression? (p : Program) : Option Tree :=
  match p.statements with
  | [.node .expressionStatement _ [e]] => some e
  | _ => none

/-- The expression is a sequence, parentheses aside. -/
def isSequence (t : Tree) : Bool :=
  match t.withoutParens.label with
  | .sequence => true
  | _ => false

/-- A text without one semicolon at its end. -/
def dropSemicolon (cs : List Char) : List Char :=
  match cs.getLast? with
  | some ';' => cs.dropLast
  | _ => cs

/-- An expression printed anew. A sequence gets parentheses, so that it stays one value where it is
put. -/
def printExpression (code : String) : String :=
  match sound? code.toList with
  | none => trimString code
  | some p => match p.soleExpression? with
    | none => trimString code
    | some e =>
      let printed := dropSemicolon (trim p.text)
      String.ofList (if isSequence e then '(' :: printed ++ [')'] else printed)

/-- Statements printed anew. -/
def printStatement (code : String) : String :=
  match sound? code.toList with
  | none => trimString code
  | some p => String.ofList (trim p.text)

end Reactive.Script
