/-
  The names of a tree.

  Patterns introduce names, targets write to names, and expressions refer to names. Each
  collection is one fold over the tree, in source order.
-/
import Reactive.Script.Tree

namespace Reactive.Script

namespace Tree

/-! ## Names that are introduced -/

/-- The names that a pattern, a parameter list or an import introduces, with their places. Defaults
and computed keys are expressions and introduce nothing. -/
def introduced (t : Tree) : List (String × Span) :=
  t.fold fun label span children =>
    match label with
    | .binding name => [(name, span)]
    | .arrayPattern | .objectPattern | .patternProperty .. | .patternDefault | .bindingRest
    | .parameters | .parameter | .restParameter
    | .importStatement .. | .importName | .importDefault | .importNamespace =>
      children.flatMap (·.2)
    | _ => []

/-! ## Names that are written -/

/-- The identifiers that the leaves of a target write through: `x` for `x`, `x.a[i]` and `x.#p`,
and nothing for a leaf that starts with something else. -/
def targetRoots (t : Tree) : List (String × Span) :=
  t.fold fun label span children =>
    match label, children with
    | .identifier name, _ => [(name, span)]
    | .member _, object :: _ | .index _, object :: _ | .privateMember _, object :: _ => object.2
    | .paren, inner :: _ => inner.2
    | .arrayTarget, _ | .objectTarget, _ => children.flatMap (·.2)
    | .targetDefault, target :: _ | .targetRest, target :: _ | .targetName, target :: _ => target.2
    | .targetProperty _, [_, target] => target.2
    | _, _ => []

/-- The names that a target writes to, each once, in order of first occurrence. -/
def targetNames (t : Tree) : List String := (t.targetRoots.map (·.1)).eraseDups

/-- The target is a pattern of several targets. -/
def isPatternTarget (t : Tree) : Bool :=
  match t.label with
  | .arrayTarget | .objectTarget => true
  | _ => false

/-- The identifier that a chain of members and parentheses starts at. -/
def chainRoot? : Tree → Option (String × Span)
  | node (.identifier name) span _ => some (name, span)
  | node (.member _) _ (object :: _) | node (.index _) _ (object :: _)
  | node (.privateMember _) _ (object :: _) => object.chainRoot?
  | node .paren _ (inner :: _) => inner.chainRoot?
  | _ => none

/-- The identifier that a single target writes through. -/
def targetRoot? : Tree → Option (String × Span)
  | node (.identifier name) span _ => some (name, span)
  | node (.member _) _ (object :: _) | node (.index _) _ (object :: _)
  | node (.privateMember _) _ (object :: _) => object.chainRoot?
  | _ => none

/-- The names that a node itself writes to: those of its target, if it is an update or an
assignment. -/
def writtenNames (t : Tree) : List String :=
  match t with
  | .node (.update ..) _ (target :: _) => target.targetNames
  | .node (.assign _) _ (target :: _) => target.targetNames
  | _ => []

/-! ## Names that are referred to -/

/-- Every reference to a variable. -/
def references (t : Tree) : List String :=
  t.fold fun label _ children =>
    match label with
    | .identifier name => [name]
    | _ => children.flatMap (·.2)

/-- Every name that is introduced somewhere in the tree. -/
def bound (t : Tree) : List String :=
  t.fold fun label _ children =>
    (match label with
      | .binding name => [name]
      | _ => []) ++ children.flatMap (·.2)

/-- The references to names that are introduced nowhere in the tree, each once, in order of first
occurrence. -/
def freeNames (t : Tree) : List String :=
  let bound := t.bound
  (t.references.filter fun name => !bound.contains name).eraseDups

end Tree

end Reactive.Script
