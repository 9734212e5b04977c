/-
  What is known about the script of a component.
-/
import Reactive.Script.Scope.Cursor

namespace Reactive

open Script

/-- How a reactive declaration is written. -/
inductive DeclarationStyle where
  /-- `$: name = value`. -/
  | assignment
  /-- Any other statement behind the label. -/
  | statement
deriving DecidableEq, Repr, Inhabited

/-- A reactive declaration: a statement that runs again when a name that it reads changes. -/
structure Declaration where
  style : DeclarationStyle
  /-- The names that it writes, in order of first occurrence. -/
  assignees : List String
  /-- The reactive names that it reads, in order of first occurrence. -/
  dependencies : List String
  /-- The text of the statement. -/
  code : String
  span : Span
deriving DecidableEq, Repr, Inhabited

/-- The facts about a script and its template. Names are listed once each, in the order in which
they were met. -/
structure Facts where
  /-- Names of the component: declared at the root of the script, or hoisted. -/
  globals : List String
  /-- Names whose changes are followed. -/
  reactive : List String
  /-- Names that the template refers to. -/
  referred : List String
  /-- Names that reactive declarations write. -/
  assignees : List String
  /-- Names that reactive declarations write and the script does not declare. -/
  hoisted : List String
  /-- The reactive declarations: plain assignments first, then the others. -/
  responsive : List Declaration
  scopes : ScopeTree
deriving Inhabited

/-- The name, seen from a place in the script, is a name of the component. -/
def Facts.isRootBinding (f : Facts) (cursor : ScopeCursor) (name : String) : Bool :=
  match cursor.resolve name with
  | some owner => owner == ScopeTree.rootId
  | none => f.hoisted.contains name

/-- A list with a name added at its end, unless the name is there. -/
def addName (names : List String) (name : String) : List String :=
  if names.contains name then names else names ++ [name]

/-- A list with several names added. -/
def addNames (names more : List String) : List String := more.foldl addName names

end Reactive
