/-
  Components.

  A component is an optional script and a template. The template is a forest of elements,
  texts and expressions; expressions are kept as text, each with a name of its own, and
  are listed a second time beside the forest in the order in which they were met.
-/

namespace Reactive

/-- A piece of script in a template. -/
structure Expression where
  id : String
  code : String
deriving DecidableEq, Repr, Inhabited

/-- What an attribute is given. -/
inductive AttributeValue where
  | static (value : String)
  | dynamic (expression : Expression)
  /-- A listener for an event. -/
  | event (name : String) (handler : Expression)
deriving DecidableEq, Repr, Inhabited

/-- An attribute of an element. -/
structure Attribute where
  name : String
  value : AttributeValue
deriving DecidableEq, Repr, Inhabited

/-- A node of a template. -/
inductive Node where
  | element (tag : String) (attributes : List Attribute) (children : List Node)
  | text (value : String)
  | expression (expression : Expression)
deriving Repr, Inhabited

/-- The markup of a component. -/
structure Template where
  nodes : List Node
  /-- Every expression, in the order of the walk over the nodes. -/
  expressions : List Expression
deriving Repr, Inhabited

/-- The script block of a component; its attributes are sorted by name. -/
structure ScriptBlock where
  raw : String
  attributes : List (String × String)
deriving DecidableEq, Repr, Inhabited

/-- A component as it was read. -/
structure Component where
  filePath : String
  template : Template
  script : Option ScriptBlock
deriving Repr, Inhabited

/-- The text of the script; empty if there is none. -/
def Component.scriptSource (c : Component) : String :=
  match c.script with
  | some s => s.raw
  | none => ""

/-- The expressions that an attribute holds. -/
def AttributeValue.expressions : AttributeValue → List Expression
  | .static _ => []
  | .dynamic e => [e]
  | .event _ h => [h]

/-- The expressions of an attribute. -/
def Attribute.expressions (a : Attribute) : List Expression := a.value.expressions

/-! ## Walks over a template -/

mutual

/-- Bottom-up evaluation of a node. -/
def Node.fold {α : Type} (element : String → List Attribute → List α → α) (text : String → α)
    (expression : Expression → α) : Node → α
  | .element tag attributes children =>
    element tag attributes (Node.foldAll element text expression children)
  | .text value => text value
  | .expression e => expression e

/-- Bottom-up evaluation of several nodes. -/
def Node.foldAll {α : Type} (element : String → List Attribute → List α → α) (text : String → α)
    (expression : Expression → α) : List Node → List α
  | [] => []
  | n :: ns => Node.fold element text expression n :: Node.foldAll element text expression ns

end

/-- Evaluating several nodes is evaluating each. -/
theorem Node.foldAll_eq_map {α : Type} (element : String → List Attribute → List α → α)
    (text : String → α) (expression : Expression → α) (ns : List Node) :
    Node.foldAll element text expression ns = ns.map (Node.fold element text expression) := by
  induction ns with
  | nil => simp [Node.foldAll]
  | cons n ns ih => simp [Node.foldAll, ih]

/-- The expressions of a node: those of its attributes, then those of its children. -/
def Node.expressions (n : Node) : List Expression :=
  n.fold (fun _ attributes children => attributes.flatMap Attribute.expressions ++ children.flatten)
    (fun _ => []) (fun e => [e])

/-- The number of nodes in the forest below and with a node. -/
def Node.size (n : Node) : Nat :=
  n.fold (fun _ _ children => 1 + children.foldr (· + ·) 0) (fun _ => 1) (fun _ => 1)

/-- The number of nodes of a template. -/
def Template.size (t : Template) : Nat := (t.nodes.map Node.size).foldr (· + ·) 0

/-- The lines that trace a walk over a node: tags when an element is entered and left, names of
attributes, texts and expressions. Elements with a tag in `pruned` are not entered. -/
def Node.trace (pruned : List String) (n : Node) : List String :=
  n.fold
    (fun tag attributes children =>
      let inner := if pruned.contains tag then []
        else attributes.map (fun a => "@" ++ a.name) ++ children.flatten
      ("<" ++ tag ++ ">") :: inner ++ ["</" ++ tag ++ ">"])
    (fun value => ["\"" ++ value])
    (fun e => ["\x7b" ++ e.code])

/-- The trace of a walk over a template. -/
def Template.trace (pruned : List String) (t : Template) : List String :=
  t.nodes.flatMap (Node.trace pruned)

end Reactive
