/-
  Announcing writes.

  A write to a tracked variable of the component is followed by a notification: `x++`
  becomes `x++, lifecycle.refresh(["x"])`. Reactive declarations are left out of the script;
  they run inside the lifecycle instead.
-/
import Reactive.Facts.Analyze
import Reactive.Json.Quoted
import Reactive.Options

namespace Reactive

open Script

/-! ## The notification -/

/-- The variable that holds the lifecycle of a component. -/
def lifecycleName : String := "lifecycle"

/-- The method that is told about changes. -/
def refreshName : String := "refresh"

/-- The text of a notification about some names. -/
def refreshCall (names : List String) : String :=
  lifecycleName ++ "." ++ refreshName ++ "([" ++ ", ".intercalate (names.map Json.quote) ++ "])"

/-- A notification about some names as a tree. -/
def refreshTree (names : List String) : Tree :=
  let text (name : String) : Tree := .node (.string (name.toList.map Char.toNat)) .none []
  .node (.call false false) .none [
    .node (.member false) .none [
      .node (.identifier lifecycleName) .none [], .node (.word refreshName) .none []],
    .node .array .none (names.map text)]

/-- A write followed by a notification. -/
def announced (write : Tree) (names : List String) : Tree :=
  .node .sequence .none [write, refreshTree names]

/-! ## The script -/

/-- The names that a policy tracks. -/
def NotifyPolicy.tracked (p : NotifyPolicy) (f : Facts) : List String :=
  match p with
  | .reactive => f.reactive
  | .referred => f.referred

/-- The names that a write at a place is announced for. -/
def notifiedNames (f : Facts) (tracked : List String) (cursor : ScopeCursor)
    (written : List String) : List String :=
  written.filter fun name => tracked.contains name && f.isRootBinding cursor name

/-- A tree with its writes announced. -/
def notifyTree (f : Facts) (tracked : List String) (t : Tree) : ScopeCursor → Tree :=
  t.fold fun label span children cursor =>
    let inner := cursor.inside label span
    let written := (Script.Tree.node label span (children.map (·.1))).writtenNames
    let result := Script.Tree.node label span (children.map fun c => c.2 inner)
    match notifiedNames f tracked cursor written with
    | [] => result
    | names => announced result names

/-- A program without its reactive declarations and with its writes announced. -/
def notifyProgram (f : Facts) (p : NotifyPolicy) (program : Program) : Program :=
  let kept := program.tree.children.filter fun s => (reactiveBody? s).isNone
  let changed := kept.map fun s => notifyTree f (p.tracked f) s (.start f.scopes)
  { program with tree := .node .program program.tree.span changed }

/-- The text of a script without its reactive declarations and with its writes announced. -/
def notifyScript (source : String) (f : Facts) (p : NotifyPolicy) : String :=
  if Text.blankString source then ""
  else String.ofList (notifyProgram f p (programTree source.toList)).text

end Reactive
