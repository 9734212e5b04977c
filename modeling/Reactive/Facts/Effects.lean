/-
  Reads and writes of a single statement.

  The statement is seen on its own, with scopes built for it alone, so a name that no such
  scope declares belongs to the component if the component knows it. The identifier that a
  single target writes through is no read, and nothing inside a target that is a pattern
  counts as one.
-/
import Reactive.Script.Scope.Cursor

namespace Reactive.Script

/-- How an expression is used. -/
structure Usage where
  /-- The identifier at the root of it is written, not read. -/
  isTarget : Bool
  /-- It stands inside a target that is a pattern. -/
  inPattern : Bool
deriving Inhabited

namespace Usage

/-- Read like any other expression. -/
def plain : Usage := ⟨false, false⟩

/-- The usage of the first part of a node. -/
def first (label : Label) (children : List Tree) (u : Usage) : Usage :=
  match label with
  | .update .. => ⟨true, u.inPattern⟩
  | .assign _ =>
    if (children.headD .absent).isPatternTarget then ⟨false, true⟩ else ⟨true, u.inPattern⟩
  | .member _ | .index _ | .privateMember _ | .paren => u
  | _ => ⟨false, u.inPattern⟩

/-- The usage of every other part of a node. -/
def other (u : Usage) : Usage := ⟨false, u.inPattern⟩

end Usage

/-- What a statement does to the names of the component. -/
structure Effects where
  writes : List String
  reads : List String
deriving Inhabited

namespace Effects

/-- No effect. -/
def none : Effects := ⟨[], []⟩

/-- One effect after the other. -/
def append (a b : Effects) : Effects := ⟨a.writes ++ b.writes, a.reads ++ b.reads⟩

/-- Effects one after the other. -/
def concat (es : List Effects) : Effects := es.foldl append none

end Effects

/-- The name is one of the component, seen from a cursor over the scopes of a statement. -/
def isGlobalAt (globals : List String) (cursor : ScopeCursor) (name : String) : Bool :=
  cursor.resolve name == Option.none && globals.contains name

/-- The effects of a tree in source order. -/
def Tree.effects (globals : List String) (t : Tree) : ScopeCursor → Usage → Effects :=
  t.fold fun label span children cursor usage =>
    match label with
    | .identifier name =>
      if !usage.isTarget && !usage.inPattern && isGlobalAt globals cursor name
      then ⟨[], [name]⟩ else Effects.none
    | _ =>
      let parts := children.map (·.1)
      let own := (Tree.node label span parts).writtenNames.filter (isGlobalAt globals cursor)
      let inner := cursor.inside label span
      Effects.append ⟨own, []⟩ (match children with
        | [] => Effects.none
        | c :: cs => Effects.concat (c.2 inner (usage.first label parts)
            :: cs.map fun c => c.2 inner usage.other))

/-- The names of the component that a statement writes and reads, each once. -/
def statementEffects (globals : List String) (statement : Tree) : Effects :=
  let scopes := ScopeTree.build [statement]
  let e := statement.effects globals (.start scopes) .plain
  ⟨e.writes.eraseDups, e.reads.eraseDups⟩

end Reactive.Script
