/-
  Steps for a template.

  Every node of the template has a handle, numbered in the order of the walk. A node is
  created, filled and then put below its parent; it is taken away in the reverse order.
-/
import Reactive.Component.Basic
import Reactive.Emit.Step

namespace Reactive.Emit

open Script

/-! ## Handles -/

/-- The character can stand in a handle. -/
def isHandleChar (c : Char) : Bool := c.isAlphanum || c == '_'

/-- The part of a handle that comes from a tag. -/
def handleStem (tag : String) : String :=
  let stem := tag.toList.map fun c => if isHandleChar c then c else '_'
  match stem with
  | [] => "el_"
  | c :: _ => if c.isDigit then "el_" ++ String.ofList stem else String.ofList stem

/-- The handle of the node with a number. -/
def handle (stem : String) (number : Nat) : String := stem ++ "_" ++ toString number

/-! ## Steps -/

/-- What a template comes to: handles in the order of the walk, steps that build, reactions, and
steps that take away, in the order of the walk. -/
structure Emission where
  handles : List String
  build : List Step
  reactions : List Reaction
  remove : List Step
deriving Inhabited

namespace Emission

/-- Nothing. -/
def none : Emission := ⟨[], [], [], []⟩

/-- One emission after the other. -/
def append (a b : Emission) : Emission :=
  ⟨a.handles ++ b.handles, a.build ++ b.build, a.reactions ++ b.reactions, a.remove ++ b.remove⟩

end Emission

/-- The emission for a node below a parent, given the number of its handle. -/
abbrev Emitter := String → Nat → Emission

/-- Emissions of siblings, numbered one after the other. -/
def siblings (parent : String) : Nat → List Emitter → Emission
  | _, [] => .none
  | n, e :: es =>
    let first := e parent n
    first.append (siblings parent (n + first.handles.length) es)

/-- Steps for an attribute of the element with a handle. -/
def attributeSteps (handle : String) (a : Attribute) : List Step × List Step :=
  match a.value with
  | .static value => ([.setAttribute handle a.name (.text value)], [])
  | .dynamic e => ([.setAttribute handle a.name (.code (printExpression e.code))], [])
  | .event name handler =>
    let code := printExpression handler.code
    ([.addListener handle name code], [.removeListener handle name code])

/-- An element. -/
def element (tag : String) (attributes : List Attribute) (children : List Emitter) : Emitter :=
  fun parent n =>
    let h := handle (handleStem tag) n
    let steps := attributes.map (attributeSteps h)
    let inner := siblings h (n + 1) children
    { handles := h :: inner.handles
      build := .createElement h tag :: (steps.flatMap (·.1) ++ inner.build
        ++ [.appendChild parent h])
      reactions := inner.reactions
      remove := .removeChild parent h :: (steps.flatMap (·.2) ++ inner.remove) }

/-- A text node. -/
def textNode (value : String) : Emitter := fun parent n =>
  let h := handle "txt" n
  ⟨[h], [.createText h (.text value), .appendChild parent h], [], [.removeChild parent h]⟩

/-- The reactive names that an expression reads. -/
def reactiveReads (f : Facts) (e : Expression) : List String :=
  (freeNames e.code).filter f.reactive.contains

/-- An expression, whose text is computed anew when a name that it reads changes. -/
def expressionNode (f : Facts) (e : Expression) : Emitter := fun parent n =>
  let h := handle "exp" n
  let code := printExpression e.code
  let reads := reactiveReads f e
  { handles := [h]
    build := [.createText h (.code code), .appendChild parent h]
    reactions := if reads.isEmpty then [] else [.updateText reads h code]
    remove := [.removeChild parent h] }

/-- The emission for a template below the target. -/
def markup (f : Facts) (t : Template) : Emission :=
  siblings targetName 0 (t.nodes.map (Node.fold element textNode (expressionNode f)))

end Reactive.Emit
