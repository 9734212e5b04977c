/-
  Steps of a compiled component.

  The lifecycle of a component has three parts: building its nodes below a target, going
  over what depends on changed names, and taking the nodes away again. Each part is a list
  of steps; what the steps do to a document is fixed by their constructors, and how they
  are written by their text.
-/
import Reactive.Facts.Basic
import Reactive.Notify
import Reactive.Text.Lines

namespace Reactive.Emit

/-- The parameter that names the node to build below. -/
def targetName : String := "target"

/-- The parameter that lists the changed names. -/
def changedName : String := "changed"

/-- What a step is given: a text, or code that computes one. -/
inductive Operand where
  | text (value : String)
  | code (source : String)
deriving DecidableEq, Repr, Inhabited

/-- An operand as it is written. -/
def Operand.write : Operand → String
  | .text value => Json.quote value
  | .code source => source

/-- A step that builds nodes, takes them away, or runs a reactive declaration. -/
inductive Step where
  | createElement (handle tag : String)
  | createText (handle : String) (value : Operand)
  | setAttribute (handle name : String) (value : Operand)
  | addListener (handle event handler : String)
  | appendChild (parent child : String)
  | removeListener (handle event handler : String)
  | removeChild (parent child : String)
  | run (declaration : Declaration)
deriving DecidableEq, Repr, Inhabited

/-- A step of a refresh: a text that is computed anew, or a declaration that runs again. -/
inductive Reaction where
  | updateText (reads : List String) (handle code : String)
  | rerun (declaration : Declaration)
deriving DecidableEq, Repr, Inhabited

/-- The names that trigger a reaction. -/
def Reaction.triggers : Reaction → List String
  | .updateText reads _ _ => reads
  | .rerun d => d.dependencies

/-! ## Text -/

/-- The condition that one of some names has changed. -/
def changedGuard (names : List String) : String :=
  " || ".intercalate (names.map fun n => changedName ++ ".includes(" ++ Json.quote n ++ ")")

/-- A reactive declaration, followed by the notification about what it writes. -/
def declarationBody (d : Declaration) : String :=
  let body := Script.printStatement d.code
  if d.assignees.isEmpty then body else body ++ "\n" ++ refreshCall d.assignees ++ ";"

/-- A call of a method with some arguments, as a statement. -/
def callText (object method : String) (args : List String) : String :=
  object ++ "." ++ method ++ "(" ++ ", ".intercalate args ++ ");"

/-- A step as it is written. -/
def Step.write : Step → String
  | .createElement handle tag =>
    handle ++ " = " ++ callText "document" "createElement" [Json.quote tag]
  | .createText handle value =>
    handle ++ " = " ++ callText "document" "createTextNode" [value.write]
  | .setAttribute handle name value =>
    callText handle "setAttribute" [Json.quote name, value.write]
  | .addListener handle event handler =>
    callText handle "addEventListener" [Json.quote event, handler]
  | .appendChild parent child => callText parent "appendChild" [child]
  | .removeListener handle event handler =>
    callText handle "removeEventListener" [Json.quote event, handler]
  | .removeChild parent child => callText parent "removeChild" [child]
  | .run d => declarationBody d

/-- The indentation of a level. -/
def indentation : String := "  "

/-- The lines of a text, each one level deeper. -/
def deeper (text : String) : String :=
  "\n".intercalate ((Text.stringLines text).map (indentation ++ ·))

/-- A reaction as it is written. -/
def Reaction.write : Reaction → String
  | .updateText reads handle code =>
    "if (" ++ changedGuard reads ++ ") " ++ handle ++ ".textContent = " ++ code ++ ";"
  | .rerun d =>
    "if (" ++ changedGuard d.dependencies ++ ") \x7b\n" ++ deeper (declarationBody d) ++ "\n\x7d"

end Reactive.Emit
