/-
  Building the scopes of statements.

  One walk in source order. A node that opens a scope does so before its parts are
  visited; names of a function declaration or class belong to the scope around it, names
  of parameters and of a function expression to its own.
-/
import Reactive.Script.Names
import Reactive.Script.Scope.Basic

namespace Reactive.Script

/-- The kind of scope that a node opens. -/
def Label.scopeKind? : Label → Option ScopeKind
  | .function .. | .arrow .. => some .function
  | .block => some .block
  | .forStatement | .forIn | .forOf _ => some .loop
  | .catchClause => some .handler
  | _ => none

namespace ScopeTree

/-- How variables of a declaration are declared. -/
def variableKind : VarKind → DeclarationKind
  | .var => .var
  | .constant => .constant
  | _ => .lexical

/-- The name of a class, which decorators may precede. -/
def className (children : List Tree) : List (String × Span) :=
  children.flatMap fun c => match c with
    | .node (.binding n) s _ => [(n, s)]
    | _ => []

/-- The names that a node declares in the scope around it. -/
def outerNames (label : Label) (children : List Tree) :
    List (List (String × Span) × DeclarationKind) :=
  match label, children with
  | .function .declaration .., name :: _ => [(name.introduced, .function)]
  | .classNode .declaration, _ => [(className children, .classDeclaration)]
  | .variables kind, _ => children.map fun d => (d.children.headD .absent).introduced
      |> fun names => (names, variableKind kind)
  | _, _ => []

/-- The names that a node declares in the scope that it opens. -/
def innerNames (label : Label) (children : List Tree) :
    List (List (String × Span) × DeclarationKind) :=
  match label, children with
  | .function .expression .., name :: parameters :: _ =>
    [(name.introduced, .function), (parameters.introduced, .parameter)]
  | .function .., _ :: parameters :: _ => [(parameters.introduced, .parameter)]
  | .arrow .., parameters :: _ => [(parameters.introduced, .parameter)]
  | .catchClause, pattern :: _ => [(pattern.introduced, .caught)]
  | _, _ => []

/-- The scope that the outer names of a node go to. -/
def outerTarget (t : ScopeTree) (label : Label) (current : Nat) : Nat :=
  match label with
  | .variables .var => t.hoistTarget current
  | _ => current

/-- Declares several groups of names. -/
def declaredAll (t : ScopeTree) (id : Nat)
    (groups : List (List (String × Span) × DeclarationKind)) : ScopeTree :=
  groups.foldl (fun t g => t.declared id g.1 g.2) t

/-- The scopes after a node, given those before it and the scope it stands in. -/
abbrev Visit := Nat → ScopeTree → ScopeTree

/-- Visits nodes one after the other. -/
def visitAll (current : Nat) (visits : List (Tree × Visit)) (t : ScopeTree) : ScopeTree :=
  visits.foldl (fun t v => v.2 current t) t

/-- What a node adds to the scopes. Names of an import are declared at the root. -/
def visitNode (label : Label) (span : Span) (children : List (Tree × Visit)) : Visit :=
  fun current t =>
    let parts := children.map (·.1)
    match label with
    | .importStatement .. => t.declared rootId (Tree.node label span parts).introduced .imported
    | _ =>
      let t := t.declaredAll (t.outerTarget label current) (outerNames label parts)
      match label.scopeKind? with
      | none => visitAll current children t
      | some kind =>
        let inner := t.scopes.length
        let t := (t.opened kind current span).declaredAll inner (innerNames label parts)
        visitAll inner children t

/-- The scopes of a list of statements. -/
def build (statements : List Tree) : ScopeTree :=
  statements.foldl (fun t s => s.fold visitNode rootId t) start

end ScopeTree

end Reactive.Script
