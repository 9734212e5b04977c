/-
  Scopes of a script.

  Scopes are numbered in the order in which they open; number 0 is the root. A scope knows
  the scope around it, which has a smaller number, and the names declared in it. The node
  that opens a scope is remembered by its span, so that any later walk over a tree read
  from the same text finds its way back.
-/
import Reactive.Script.Tree

namespace Reactive.Script

/-- What opens a scope. -/
inductive ScopeKind where
  | root | function | block | loop | handler
deriving DecidableEq, Repr, Inhabited

/-- What declares a name. -/
inductive DeclarationKind where
  | var | lexical | constant | function | classDeclaration | parameter | caught | imported
deriving DecidableEq, Repr, Inhabited

/-- Where and how a name is declared. -/
structure Site where
  kind : DeclarationKind
  span : Span
deriving DecidableEq, Repr, Inhabited

/-- A scope. The names are in the order of their declaration, each once. -/
structure Scope where
  kind : ScopeKind
  parent : Option Nat
  declarations : List (String × Site)
deriving Repr, Inhabited

namespace Scope

/-- The name is declared in the scope. -/
def declares (s : Scope) (name : String) : Bool := s.declarations.any (·.1 == name)

/-- The declared names. -/
def names (s : Scope) : List String := s.declarations.map (·.1)

/-- Declares a name; the first declaration of a name stays. -/
def declare (s : Scope) (name : String) (site : Site) : Scope :=
  if s.declares name then s
  else { s with declarations := s.declarations ++ [(name, site)] }

end Scope

/-- The scopes of a script, by number, and the scopes that spans of nodes open, latest first. -/
structure ScopeTree where
  scopes : List Scope
  owners : List (Span × Nat)
deriving Repr, Inhabited

namespace ScopeTree

/-- The number of the root. -/
def rootId : Nat := 0

/-- Only the root, with nothing declared. -/
def start : ScopeTree := ⟨[⟨.root, none, []⟩], []⟩

/-- The scope of a number. -/
def scope? (t : ScopeTree) (id : Nat) : Option Scope := t.scopes[id]?

/-- The root scope. -/
def root (t : ScopeTree) : Scope := t.scopes.headD ⟨.root, none, []⟩

/-- The scope that the node of a span opens. -/
def scopeOf? (t : ScopeTree) (span : Span) : Option Nat :=
  (t.owners.find? (·.1 == span)).map (·.2)

/-- A scope and the scopes around it, from the inside out. -/
def chain (t : ScopeTree) (id : Nat) : List Nat :=
  match t.scope? id with
  | none => []
  | some s => match s.parent with
    | none => [id]
    | some p => if p < id then id :: chain t p else [id]
termination_by id

/-- The scope of a number declares a name. -/
def declaresAt (t : ScopeTree) (name : String) (id : Nat) : Bool :=
  match t.scope? id with
  | some s => s.declares name
  | none => false

/-- The innermost scope around a scope that declares a name. -/
def findOwner (t : ScopeTree) (id : Nat) (name : String) : Option Nat :=
  (t.chain id).find? (t.declaresAt name)

/-- The scope of a number takes the `var` declarations inside it. -/
def hoistsAt (t : ScopeTree) (id : Nat) : Bool :=
  match t.scope? id with
  | some s => s.kind = .root || s.kind = .function
  | none => false

/-- The scope that `var` declarations inside a scope belong to. -/
def hoistTarget (t : ScopeTree) (id : Nat) : Nat :=
  ((t.chain id).find? t.hoistsAt).getD rootId

/-- Opens a scope inside another one, owned by the node of a span. -/
def opened (t : ScopeTree) (kind : ScopeKind) (parent : Nat) (owner : Span) : ScopeTree :=
  ⟨t.scopes ++ [⟨kind, some parent, []⟩], (owner, t.scopes.length) :: t.owners⟩

/-- Declares names in the scope of a number. -/
def declared (t : ScopeTree) (id : Nat) (names : List (String × Span)) (kind : DeclarationKind) :
    ScopeTree :=
  { t with scopes := t.scopes.modify id fun s =>
      names.foldl (fun s n => s.declare n.1 ⟨kind, n.2⟩) s }

end ScopeTree

end Reactive.Script
