/-
  Walking a tree along its scopes.

  A cursor holds the scopes that are open at a node, innermost first. A walk enters the
  scope of a node by the span of the node, so it also works on a tree that was read again
  from the same text.
-/
import Reactive.Script.Scope.Build

namespace Reactive.Script

/-- The open scopes, innermost first. -/
structure ScopeCursor where
  tree : ScopeTree
  stack : List Nat
deriving Inhabited

namespace ScopeCursor

/-- At the root. -/
def start (tree : ScopeTree) : ScopeCursor := ⟨tree, [ScopeTree.rootId]⟩

/-- The innermost open scope. -/
def current (c : ScopeCursor) : Nat := c.stack.headD ScopeTree.rootId

/-- Enters the scope that the node of a span opens, if it opens one. -/
def enter? (c : ScopeCursor) (span : Span) : Option ScopeCursor :=
  (c.tree.scopeOf? span).map fun id => { c with stack := id :: c.stack }

/-- Leaves the innermost scope. -/
def leave (c : ScopeCursor) : ScopeCursor := { c with stack := c.stack.tail }

/-- The scope that a name belongs to here. -/
def resolve (c : ScopeCursor) (name : String) : Option Nat := c.tree.findOwner c.current name

/-- The name belongs to the root here. -/
def resolvesToRoot (c : ScopeCursor) (name : String) : Bool :=
  c.resolve name == some ScopeTree.rootId

/-- The cursor inside a node: in its scope if it opens one. -/
def inside (c : ScopeCursor) (label : Label) (span : Span) : ScopeCursor :=
  match label.scopeKind? with
  | none => c
  | some _ => (c.enter? span).getD c

end ScopeCursor

end Reactive.Script
