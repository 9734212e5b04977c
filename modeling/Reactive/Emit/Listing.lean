/-
  The text of a compiled component.

  A listing holds the parts of the text; rendering puts them into one function, every line
  at its depth. Blank lines are dropped, so a part may be empty.
-/
import Reactive.Text.Lines
import Reactive.Json.Value
import Reactive.Emit.Step

namespace Reactive.Emit

open Reactive.Text

/-- The parts of a compiled component. -/
structure Listing where
  name : Option String
  declarations : List String
  script : String
  construct : List String
  refresh : List String
  teardown : List String
deriving DecidableEq, Repr, Inhabited

namespace Listing

/-- A listing as JSON. -/
def toJson (l : Listing) : Json :=
  .object [("name", .optional (l.name.map .string)), ("declarations", .strings l.declarations),
    ("script", .string l.script), ("construct", .strings l.construct),
    ("refresh", .strings l.refresh), ("teardown", .strings l.teardown)]

/-- The lines of a text at a depth, without the blank ones. -/
def linesAt (depth : Nat) (text : String) : List String :=
  ((stringLines text).filter fun l => !blankString l).map fun l =>
    String.join (List.replicate depth indentation) ++ l

/-- A method of the lifecycle. -/
def method (name parameter : String) (body : List String) : List String :=
  linesAt 2 (name ++ "(" ++ parameter ++ ") \x7b") ++ body.flatMap (linesAt 3) ++ linesAt 2 "\x7d,"

/-- The first line, given as a text since the name of a component may hold anything. -/
def opening (l : Listing) : String :=
  match l.name with
  | some name => "export default function " ++ name ++ "() \x7b\n"
  | none => "export default function () \x7b\n"

/-- The lines between the first and the last one. -/
def body (l : Listing) : List String :=
  (l.declarations.flatMap fun d => linesAt 1 ("let " ++ d ++ ";"))
  ++ linesAt 1 l.script
  ++ linesAt 1 ("const " ++ lifecycleName ++ " = \x7b")
  ++ method "construct" targetName l.construct
  ++ method "refresh" changedName l.refresh
  ++ method "teardown" targetName l.teardown
  ++ linesAt 1 "\x7d;"
  ++ linesAt 1 ("return " ++ lifecycleName ++ ";")

/-- The text of a compiled component. -/
def render (l : Listing) : String :=
  l.opening ++ String.join (l.body.map (· ++ "\n")) ++ "\x7d\n"

end Listing

end Reactive.Emit
