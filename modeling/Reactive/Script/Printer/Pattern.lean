/-
  Printing binding patterns and assignment targets.

  Both stand on one line. A binding pattern with braces has blanks inside them, an
  assignment target has none.
-/
import Reactive.Script.Printer.Expression

namespace Reactive.Script.Printer

/-- Elements of an array pattern; a hole at the end needs a comma of its own. -/
def slots (m : Mode) (ps : List Part) : List (Writer Unit) :=
  let last := ps.length - 1
  ps.mapIdx fun i p => do
    p.target m
    if i == last && p.isAbsent then put ","

/-- An array pattern or target. -/
def arrayPatternForm (ps : List Part) (m : Mode) : Writer Unit := do
  put "["
  commas (slots m ps)
  put "]"

/-- An object pattern. -/
def objectPatternForm (ps : List Part) (m : Mode) : Writer Unit :=
  if ps.isEmpty then put "\x7b\x7d"
  else do
    put "\x7b "
    commas (ps.map fun p => p.print m)
    put " \x7d"

/-- An object target. -/
def objectTargetForm (ps : List Part) (m : Mode) : Writer Unit := do
  put "\x7b"
  commas (ps.map fun p => p.print m)
  put "\x7d"

/-- The variable that a pattern introduces at its top. -/
def patternName? (t : Tree) : Option String :=
  match t with
  | .node (.binding n) _ _ => some n
  | .node .patternDefault _ (.node (.binding n) _ _ :: _) => some n
  | _ => none

/-- A property of an object pattern, its key left out where it names the variable. -/
def patternPropertyForm (computed : Bool) (ps : List Part) (m : Mode) : Writer Unit := do
  let short := match (nth ps 0).label with
    | .word k => patternName? (nth ps 1).tree == some k
    | _ => false
  unless short do
    keyForm computed (nth ps 0)
    put ": "
  (nth ps 1).print m

/-- A property of an object target. -/
def targetPropertyForm (computed : Bool) (ps : List Part) (m : Mode) : Writer Unit := do
  keyForm computed (nth ps 0)
  put ": "
  (nth ps 1).target m

/-- A pattern or target with a default. -/
def defaultForm (ps : List Part) (m : Mode) : Writer Unit := do
  (nth ps 0).target m
  unless (nth ps 1).isAbsent do
    put " = "
    (nth ps 1).level Level.comma

/-- The rest of a pattern or target. -/
def restForm (ps : List Part) (m : Mode) : Writer Unit := do
  put "..."
  (nth ps 0).target m

end Reactive.Script.Printer
