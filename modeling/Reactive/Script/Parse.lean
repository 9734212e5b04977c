/-
  Reading whole scripts and single expressions.

  A script that no rule reads has a fault and no tree; a script with flaws has a tree all
  the same. Where a caller does not ask for flaws, a faulty script counts as an empty one.
-/
import Reactive.Script.Parser.Statement

namespace Reactive.Script

open Reactive.Script.Parser

/-- The state before the first token. -/
def startState (source : List Char) : State :=
  { token := ⟨.endOfInput, 0, 0, false, false, []⟩
    here := ⟨source, 0⟩
    next := ⟨source, 0⟩
    previousStop := 0
    trivia := .start
    flaws := []
    defaults := []
    trailingCommas := []
    notArrows := []
    context := .module }

/-- The rules with room for every text as long as `source`. -/
def rulesFor (source : List Char) : Rules :=
  let bound := source.length + 16
  rules bound bound

/-- A script as read: its tree, the comments that lead something, and the offsets of its flaws. -/
structure Program where
  tree : Tree
  comments : List Comment
  flaws : List Nat
deriving Inhabited

/-- The child of a program is a statement, not a directive or the line that names an
interpreter. -/
def isStatement (t : Tree) : Bool :=
  match t.label with
  | .hashbang _ | .directive _ => false
  | _ => true

/-- The statements of a script. -/
def Program.statements (p : Program) : List Tree := p.tree.children.filter isStatement

/-- A name exported twice is a flaw. -/
def repeatedExports (statements : List Tree) : List Nat :=
  let names := statements.flatMap exportedNames
  if names.eraseDups.length = names.length then [] else [0]

/-- The statements of a whole script. -/
def programRule (r : Rules) : Parser Tree := do
  let s ← get
  let opening ← match hashbangAt s.next with
    | some (text, next) =>
      set { s with next := next }
      let span : Span := ⟨0, next.offset⟩
      pure [Tree.node (.hashbang (String.ofList text)) span []]
    | none => pure []
  advance
  let items ← statementsUntil r atEnd r.bound true
  let stop := (← token).start
  return .node .program ⟨0, stop⟩ (opening ++ items)

/-- Reads a script as a module. -/
def parseModule (source : List Char) : Except Fault Program :=
  match programRule (rulesFor source) (startState source) with
  | .error e _ => .error e
  | .ok t s =>
    let late := repeatedExports t.children ++ s.defaults.map (·.1)
    .ok ⟨t, s.trivia.leading, late ++ s.flaws⟩

/-- The tree of a script; a faulty script has an empty one. -/
def programTree (source : List Char) : Program :=
  match parseModule source with
  | .ok p => p
  | .error _ => ⟨.node .program ⟨0, 0⟩ [], [], []⟩

/-- The script has neither fault nor flaw. -/
def soundModule (source : List Char) : Except String Program :=
  match parseModule source with
  | .error e => .error e.message
  | .ok p => match p.flaws.getLast? with
    | none => .ok p
    | some offset => .error ("invalid syntax near offset " ++ toString offset)

/-- Reads one expression, commas included, at the start of a text; what follows it is not looked
at beyond its first token. -/
def parseExpression (source : List Char) : Except String Tree :=
  let reader : Parser Tree := do
    advance
    expressionRule (rulesFor source)
  match reader (startState source) with
  | .error e _ => .error e.message
  | .ok t s => match (s.defaults.map (·.1) ++ s.flaws).getLast? with
    | none => .ok t
    | some offset => .error ("invalid syntax near offset " ++ toString offset)

end Reactive.Script
