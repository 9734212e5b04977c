/-
  Writes to the variables of a component.

  An ordinary statement writes to a variable of the component where an update or an
  assignment, at any depth, has a target whose name belongs to the root at that place.
-/
import Reactive.Script.Scope.Cursor

namespace Reactive.Script

/-- The names of the root that a tree writes to, seen from a cursor, in source order. -/
def Tree.rootWrites (t : Tree) : ScopeCursor → List String :=
  t.fold fun label span children cursor =>
    let own := (Tree.node label span (children.map (·.1))).writtenNames
    own.filter cursor.resolvesToRoot ++ children.flatMap fun c => c.2 (cursor.inside label span)

/-- The names of the root that statements write to, each once. -/
def rootMutations (scopes : ScopeTree) (statements : List Tree) : List String :=
  (statements.flatMap fun s => s.rootWrites (.start scopes)).eraseDups

end Reactive.Script
