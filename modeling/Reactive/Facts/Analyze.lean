/-
  Analysing a component.

  The statements labelled `$` at the top of a script are its reactive declarations, the
  others are ordinary. Names that ordinary statements write are reactive; then come the
  plain assignments among the declarations, in source order, each reading the names that
  are reactive by then; last come the other declarations.
-/
import Reactive.Component.Basic
import Reactive.Facts.Basic
import Reactive.Facts.Effects
import Reactive.Facts.Mutation
import Reactive.Script.Snippet

namespace Reactive

open Script

/-! ## The template -/

/-- The names that a template refers to, each once. -/
def Template.referredNames (t : Template) : List String :=
  ((t.nodes.flatMap Node.expressions).flatMap fun e => freeNames e.code).eraseDups

/-! ## Declarations -/

/-- The label of reactive declarations. -/
def reactiveLabel : String := "$"

/-- The body of a reactive declaration. -/
def reactiveBody? : Tree → Option Tree
  | .node .labeled _ [.node (.word name) _ _, body] =>
    if name == reactiveLabel then some body else none
  | _ => none

/-- The target is a member. -/
def isMember (t : Tree) : Bool :=
  match t.label with
  | .member _ | .index _ | .privateMember _ => true
  | _ => false

/-- The target and the value of a plain assignment to names. -/
def plainAssignment? : Tree → Option (Tree × Tree)
  | .node .expressionStatement _ [.node (.assign .plain) _ [target, value]] =>
    if isMember target then none else some (target, value)
  | _ => none

/-- The characters of a text between two byte offsets. -/
def sliceFrom : Nat → Nat → List Char → List Char
  | _, _, [] => []
  | skip, keep, c :: cs =>
    if skip > 0 then sliceFrom (skip - c.utf8Size) keep cs
    else if keep > 0 then c :: sliceFrom 0 (keep - c.utf8Size) cs
    else []

/-- The text that a span covers. -/
def slice (source : List Char) (span : Span) : String :=
  String.ofList (sliceFrom span.start (span.stop - span.start) source)

/-- What is known while the declarations are gone through. -/
structure Progress where
  globals : List String
  reactive : List String
  hoisted : List String
deriving Inhabited

namespace Progress

/-- The assignees of a plain assignment become reactive, and hoisted if nobody declares them. -/
def assigned (p : Progress) (name : String) : Progress :=
  { globals := addName p.globals name
    reactive := addName p.reactive name
    hoisted := if p.globals.contains name then p.hoisted else p.hoisted ++ [name] }

/-- A plain assignment. Its dependencies are read before its own names join. -/
def assignment (source : List Char) (p : Progress) (body target value : Tree) :
    Declaration × Progress :=
  let names := target.targetNames
  let reads := value.freeNames.filter p.reactive.contains
  (⟨.assignment, names, reads, slice source body.span, body.span⟩, names.foldl assigned p)

/-- Any other declaration. -/
def statement (source : List Char) (p : Progress) (body : Tree) : Declaration × Progress :=
  let e := statementEffects p.globals body
  (⟨.statement, e.writes, e.reads, slice source body.span, body.span⟩,
    { p with reactive := addNames p.reactive e.writes })

/-- Goes through the plain assignments. -/
def assignments (source : List Char) : Progress → List Tree → List Declaration × Progress
  | p, [] => ([], p)
  | p, body :: bodies =>
    match plainAssignment? body with
    | none => assignments source p bodies
    | some (target, value) =>
      let (d, p) := assignment source p body target value
      let (ds, p) := assignments source p bodies
      (d :: ds, p)

/-- Goes through the other declarations. -/
def statements (source : List Char) : Progress → List Tree → List Declaration × Progress
  | p, [] => ([], p)
  | p, body :: bodies =>
    match plainAssignment? body with
    | some _ => statements source p bodies
    | none =>
      let (d, p) := statement source p body
      let (ds, p) := statements source p bodies
      (d :: ds, p)

end Progress

/-! ## The analysis -/

/-- The ordinary statements among those of a script. -/
def ordinaryStatements (statements : List Tree) : List Tree :=
  statements.filter fun s => (reactiveBody? s).isNone

/-- The bodies of the reactive declarations among the statements of a script. -/
def reactiveBodies (statements : List Tree) : List Tree := statements.filterMap reactiveBody?

/-- The declaration with its dependencies cut down to reactive names. -/
def Declaration.restrict (reactive : List String) (d : Declaration) : Declaration :=
  { d with dependencies := d.dependencies.filter reactive.contains }

/-- The facts about the statements of a script with this text. -/
def analyzeStatements (source : List Char) (statements : List Tree) (referred : List String) :
    Facts :=
  let ordinary := ordinaryStatements statements
  let bodies := reactiveBodies statements
  let scopes := ScopeTree.build ordinary
  let start : Progress := ⟨scopes.root.names, rootMutations scopes ordinary, []⟩
  let (plain, p) := Progress.assignments source start bodies
  let (others, p) := Progress.statements source p bodies
  let responsive := (plain ++ others).map (Declaration.restrict p.reactive)
  { globals := p.globals
    reactive := p.reactive
    referred := referred
    assignees := (responsive.flatMap (·.assignees)).eraseDups
    hoisted := p.hoisted
    responsive := responsive
    scopes := scopes }

/-- The facts about a component. A script that cannot be read counts as empty. -/
def analyze (c : Component) : Facts :=
  let source := c.scriptSource.toList
  analyzeStatements source (programTree source).statements c.template.referredNames

end Reactive
