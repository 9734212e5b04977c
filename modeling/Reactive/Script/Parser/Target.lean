/-
  Expressions read again as assignment targets.

  Whether `[a, b]` is a list or a pattern shows only when the `=` behind it is reached.
  Parentheses around a target are dropped; around a pattern they are not allowed.
-/
import Reactive.Script.Parser.Pattern

namespace Reactive.Script.Parser

/-- A variable or member as a target. -/
def toSimpleTarget : Tree → Parser Tree
  | .node (.identifier n) s cs => return .node (.identifier n) s cs
  | .node (.member false) s cs => return .node (.member false) s cs
  | .node (.index false) s cs => return .node (.index false) s cs
  | .node (.privateMember false) s cs => return .node (.privateMember false) s cs
  | .node .paren _ [.node .array s _] => throw (.unexpected s.start)
  | .node .paren _ [.node .object s _] => throw (.unexpected s.start)
  | .node .paren _ [t] => toSimpleTarget t
  | .node _ s _ => throw (.unexpected s.start)

/-- The default that a shorthand property was written with, taken out of the waiting ones. -/
def takeDefault ( begin : Nat) : Parser (Option Tree) := do
  let s ← get
  match s.defaults.find? (fun d => d.1 == begin) with
  | some (_, value) =>
    set { s with defaults := s.defaults.filter (fun d => d.1 != begin) }
    return some value
  | none => return none

/-- A comma behind a rest target is flawed. -/
def checkTrailingComma ( begin : Nat) : Parser Unit := do
  flawIf ((← get).trailingCommas.contains begin)

/-- The rest of an object goes to one target; a pattern there is flawed. -/
def checkRestTarget (t : Tree) : Parser Unit :=
  match t.label with
  | .array | .object => flaw
  | _ => pure ()

mutual

/-- An expression as a target. -/
def toTarget : Tree → Parser Tree
  | .node .array s cs => return .node .arrayTarget s (← elementTargets s.start cs)
  | .node .object s cs => return .node .objectTarget s (← propertyTargets s.start cs)
  | t => toSimpleTarget t

/-- The elements of an array literal as targets. -/
def elementTargets ( begin : Nat) : List Tree → Parser (List Tree)
  | [] => return []
  | .node .absent s cs :: rest => return .node .absent s cs :: (← elementTargets begin rest)
  | .node .spread s [t] :: rest => do
    unless rest.isEmpty do throw (.unexpected s.start)
    checkTrailingComma begin
    return [.node .targetRest s [← toTarget t]]
  | .node (.assign op) s [l, v] :: rest => do
    flawIf (op ≠ .plain)
    return .node .targetDefault s [l, v] :: (← elementTargets begin rest)
  | t :: rest => do
    let t ← toTarget t
    return t :: (← elementTargets begin rest)

/-- The properties of an object literal as targets. -/
def propertyTargets ( begin : Nat) : List Tree → Parser (List Tree)
  | [] => return []
  | .node .spread s [t] :: rest => do
    unless rest.isEmpty do throw (.unexpected s.start)
    checkTrailingComma begin
    checkRestTarget t
    return [.node .targetRest s [← toTarget t]]
  | .node (.property .init false true _) s [.node (.word n) w _, _] :: rest => do
    let value := (← takeDefault s.start).getD .absent
    let t := Tree.node .targetName s [.node (.identifier n) w [], value]
    return t :: (← propertyTargets begin rest)
  | .node (.property .init false false computed) s [k, .node (.assign op) v [l, d]] :: rest => do
    flawIf (op ≠ .plain)
    let t := Tree.node (.targetProperty computed) s [k, .node .targetDefault v [l, d]]
    return t :: (← propertyTargets begin rest)
  | .node (.property .init false false computed) s [k, v] :: rest => do
    let t := Tree.node (.targetProperty computed) s [k, ← toTarget v]
    return t :: (← propertyTargets begin rest)
  | .node _ s _ :: _ => throw (.unexpected s.start)

end

end Reactive.Script.Parser
