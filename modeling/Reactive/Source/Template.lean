/-
  Templates from documents.

  Texts and attribute values get their regions back before they are split. Expressions are
  checked and numbered in the order in which they are met.
-/
import Reactive.Component.Basic
import Reactive.Markup.Dom
import Reactive.Script.Snippet
import Reactive.Source.Fragment
import Reactive.Source.Placeholder

namespace Reactive.Source

open Reactive.Markup Reactive.Text

/-- Building a template: the expressions met so far, or an error. -/
abbrev TemplateM := StateT (List Expression) (Except CompileError)

/-- The prefix of attributes that listen to events. -/
def eventMark : List Char := "on:".toList

/-- The element around a text that mixes literals and expressions. -/
def mixedTag : String := "div"

/-- Checks and numbers an expression. -/
def register (code : String) : TemplateM Expression := do
  match Script.checkExpression code with
  | .error message => throw (.invalidExpression code message)
  | .ok _ =>
    let known ← get
    let e : Expression := ⟨"expr_" ++ toString known.length, code⟩
    set (known ++ [e])
    return e

/-! ## Attributes -/

/-- A value as an attribute other than a listener. -/
def plainValue (value : String) : TemplateM AttributeValue := do
  match ← classifyValue value with
  | .expression code => return .dynamic (← register code)
  | .literal text => return .static text

/-- The code of a listener: an expression, or the text itself. -/
def handlerCode (value : String) : Except CompileError String := do
  match ← classifyValue value with
  | .expression code => return code
  | .literal text =>
    if text.isEmpty then throw (.emptyExpression .attributeValue value) else return text

/-- An attribute with this value. -/
def buildAttribute (name value : String) : TemplateM Attribute := do
  match after? eventMark name.toList with
  | some event =>
    let handler ← register (← handlerCode value)
    return ⟨name, .event (String.ofList event) handler⟩
  | none => return ⟨name, ← plainValue value⟩

/-- The attributes of an element. -/
def buildAttributes (regions : List (List Char)) (attrs : List Attr) : TemplateM (List Attribute) :=
  attrs.mapM fun a => buildAttribute a.name (String.ofList (restore regions a.value.toList))

/-! ## Texts -/

/-- A fragment as a node. -/
def fragmentNode : Fragment → TemplateM Node
  | .literal text => return .text text
  | .expression code => return .expression (← register code)

/-- A trimmed text as a node: nothing, the only fragment, or an element around the fragments. -/
def buildText (text : String) : TemplateM (Option Node) := do
  if text.isEmpty then return none
  else
    match ← splitFragments text .text with
    | [f] => return some (← fragmentNode f)
    | fs => return some (.element mixedTag [] (← fs.mapM fragmentNode))

/-! ## Nodes -/

mutual

/-- A node of a document as a node of the template. -/
def buildNode (regions : List (List Char)) : Dom → TemplateM (Option Node)
  | .element name attrs children => do
    let attributes ← buildAttributes regions attrs
    return some (.element name attributes (← buildNodes regions children))
  | .text value => buildText (String.ofList (trim (restore regions value.toList)))
  | .comment => return none

/-- Nodes of a document as nodes of the template. -/
def buildNodes (regions : List (List Char)) : List Dom → TemplateM (List Node)
  | [] => return []
  | d :: ds => do
    let n ← buildNode regions d
    return n.toList ++ (← buildNodes regions ds)

end

/-- The element only wraps the content of a document. -/
def isWrapper (name : String) : Bool := name == "html" || name == "head" || name == "body"

mutual

/-- A node at the top of a document, with the wrappers dropped. -/
def unwrapNode : Dom → List Dom
  | .element name attrs children =>
    if isWrapper name then unwrapNodes children else [.element name attrs children]
  | d => [d]

/-- Nodes at the top of a document, with the wrappers dropped. -/
def unwrapNodes : List Dom → List Dom
  | [] => []
  | d :: ds => unwrapNode d ++ unwrapNodes ds

end

/-- The template of a document. -/
def buildTemplate (regions : List (List Char)) (document : List Dom) :
    Except CompileError Template := do
  let (nodes, expressions) ← (buildNodes regions (unwrapNodes document)).run []
  return ⟨nodes, expressions⟩

end Reactive.Source
