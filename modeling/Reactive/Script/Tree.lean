/-
  Syntax trees of scripts.

  A script is one kind of tree: a node has a label, which names the production, the
  span of source bytes it was read from, and its children in source order. Every
  analysis of a script is then one fold; a production matters to an analysis only
  where its label is mentioned.

  The children of each label are listed beside it. `absent` stands for an optional
  child that is missing where its place matters.
-/
import Reactive.Text.Blank

namespace Reactive.Script

/-- A range of byte offsets in the UTF-8 form of the source. -/
structure Span where
  start : Nat
  stop : Nat
deriving DecidableEq, Repr, Inhabited, Hashable

/-- The span of nodes that no source text stands for. -/
def Span.none : Span := ⟨0, 0⟩

/-! ## Labels -/

inductive UnaryOp where
  | plus | minus | not | bitNot | typeof | void | delete
deriving DecidableEq, Repr, Inhabited

inductive UpdateOp where
  | increment | decrement
deriving DecidableEq, Repr, Inhabited

inductive BinaryOp where
  | eq | ne | strictEq | strictNe | lt | le | gt | ge | shl | shr | ushr
  | add | sub | mul | div | rem | exp | bitOr | bitXor | bitAnd | isIn | instanceOf
deriving DecidableEq, Repr, Inhabited

inductive LogicalOp where
  | or | and | coalesce
deriving DecidableEq, Repr, Inhabited

/-- Assignment operators: plain, with a binary operator, with a logical operator. -/
inductive AssignOp where
  | plain
  | binary (op : BinaryOp)
  | logical (op : LogicalOp)
deriving DecidableEq, Repr, Inhabited

/-- `var`, `let`, `const`, `using` and `await using`. -/
inductive VarKind where
  | var | lexical | constant | resource | asyncResource
deriving DecidableEq, Repr, Inhabited

/-- What a function node was written as. The value of a default export is a declaration that
introduces no name where it stands. -/
inductive FunctionForm where
  | declaration | expression | method | exported
deriving DecidableEq, Repr, Inhabited

/-- What a class node was written as. -/
inductive ClassForm where
  | declaration | expression | exported
deriving DecidableEq, Repr, Inhabited

inductive PropertyKind where
  | init | get | set
deriving DecidableEq, Repr, Inhabited

inductive MethodKind where
  | constructor | method | get | set
deriving DecidableEq, Repr, Inhabited

/-- Who may use a class member: anyone, its class and the heirs of that, or its class alone. -/
inductive Access where
  | anyone | heirs | owner
deriving DecidableEq, Repr, Inhabited

/-- The marks on a class member. Besides `static` they belong to typed dialects: they are read and
kept, and mean nothing here. -/
structure Modifiers where
  static : Bool := false
  access : Option Access := none
  /-- The member has no body of its own. -/
  unfinished : Bool := false
  /-- The member replaces an inherited one. -/
  overrides : Bool := false
  /-- The field is set once. -/
  fixed : Bool := false
  /-- The field is only described. -/
  ambient : Bool := false
  /-- The name has a question mark behind it. -/
  optional : Bool := false
  /-- The name has an exclamation mark behind it. -/
  definite : Bool := false
deriving DecidableEq, Repr, Inhabited

/-- Import phase keywords. -/
inductive Phase where
  | source | defer
deriving DecidableEq, Repr, Inhabited

/-- A number as a script holds it: a binary floating-point value `mantissa * 2 ^ exponent`,
or an overflow. -/
inductive Number where
  | finite (mantissa : Nat) (exponent : Int)
  | infinite
deriving DecidableEq, Repr, Inhabited

/-- The production a node stands for. -/
inductive Label where
  /-- Missing optional child; also a hole in an array. -/
  | absent
  -- Names.
  /-- Reference to a variable. -/
  | identifier (name : String)
  /-- Variable introduced by a pattern, function, class or import. -/
  | binding (name : String)
  /-- Name that is no variable: property, label part of `import.meta`, module name. -/
  | word (name : String)
  | privateWord (name : String)
  -- Literals.
  | null
  | boolean (value : Bool)
  | number (value : Number)
  | bigint (value : Nat)
  /-- Code points of the value; a lone surrogate stands for itself. -/
  | string (value : List Nat)
  | regex (pattern flags : String)
  /-- Children: the text pieces, then the holes. -/
  | template
  | templateText (raw : String)
  -- Primary expressions.
  | this
  | super
  /-- Children: elements, holes as `absent`. -/
  | array
  /-- Children: `property` and `spread`. -/
  | object
  /-- Children: key, value. -/
  | property (kind : PropertyKind) (method shorthand computed : Bool)
  /-- Child: the spread expression. -/
  | spread
  /-- Child: the expression inside the parentheses. -/
  | paren
  /-- Children: name or `absent`, `parameters`, `body` or `absent`. `wrapped` records parentheses
  directly around the function, `quiet` a comment that says that calls of it have no effect. -/
  | function (form : FunctionForm) (async generator wrapped quiet : Bool)
  /-- Children: `parameters`, `body`. -/
  | arrow (async concise wrapped quiet : Bool)
  /-- Children: `parameter` and `restParameter`. -/
  | parameters
  /-- Children: decorators, pattern, and a default or `absent`. -/
  | parameter
  /-- Children: decorators, pattern. -/
  | restParameter
  /-- Children: directives, then statements. -/
  | body
  | directive (raw : String)
  /-- Children: decorators, name or `absent`, superclass or `absent`, `interfaces` or `absent`,
  `classBody`. -/
  | classNode (form : ClassForm)
  /-- Children: names and members of names. -/
  | interfaces
  | classBody
  | decorator
  /-- Children: decorators, key, `function`. -/
  | method (kind : MethodKind) (computed : Bool) (marks : Modifiers)
  /-- Children: decorators, key, value or `absent`. -/
  | field (computed accessor : Bool) (marks : Modifiers)
  | staticBlock
  -- Operators.
  | unary (op : UnaryOp)
  /-- Child: target. -/
  | update (op : UpdateOp) (before : Bool)
  | binary (op : BinaryOp)
  | logical (op : LogicalOp)
  /-- Children: `privateWord`, object. -/
  | privateIn
  /-- Children: target, value. -/
  | assign (op : AssignOp)
  | conditional
  /-- Children: callee, then arguments. `pure` records a comment that says that the call may be
  dropped if its value is not used. -/
  | call (optional pure : Bool)
  /-- Children: callee, then arguments. -/
  | new (pure : Bool)
  /-- Children: object, `word`. -/
  | member (optional : Bool)
  /-- Children: object, index. -/
  | index (optional : Bool)
  /-- Children: object, `privateWord`. -/
  | privateMember (optional : Bool)
  /-- Child: a member or call with an optional step in it. -/
  | chain
  | sequence
  /-- Children: tag, `template`. -/
  | tagged
  | await
  /-- Child: value or `absent`. -/
  | yield (delegate : Bool)
  /-- Children: source, options if any. -/
  | importCall (phase : Option Phase)
  /-- Children: two `word`s. -/
  | metaProperty
  -- Assignment targets other than identifiers and members.
  /-- Children: targets, `targetDefault`, `targetRest`, `absent`. -/
  | arrayTarget
  /-- Children: `targetName`, `targetProperty`, `targetRest`. -/
  | objectTarget
  /-- Children: target, default. -/
  | targetDefault
  | targetRest
  /-- Children: `identifier`, default or `absent`. -/
  | targetName
  /-- Children: key, target. -/
  | targetProperty (computed : Bool)
  -- Binding patterns other than names.
  /-- Children: patterns, `bindingRest`, `absent`. -/
  | arrayPattern
  /-- Children: `patternProperty`, `bindingRest`. -/
  | objectPattern
  /-- Children: key, pattern. -/
  | patternProperty (shorthand computed : Bool)
  /-- Children: pattern, default. -/
  | patternDefault
  | bindingRest
  -- Statements.
  /-- Children: a `hashbang` if any, directives, then statements. -/
  | program
  | hashbang (text : String)
  | block
  | empty
  | expressionStatement
  /-- Children: test, consequence, and the alternative if any. -/
  | ifStatement
  | doWhile
  | whileStatement
  /-- Children: initializer, test and update, each possibly `absent`, then the body. -/
  | forStatement
  /-- Children: left side, object, body. -/
  | forIn
  /-- Children: left side, iterable, body. -/
  | forOf (await : Bool)
  /-- Child: a `word` if labelled. -/
  | continueStatement
  | breakStatement
  /-- Children: object, body. -/
  | withStatement
  /-- Children: subject, then the `switchCase`s. -/
  | switchStatement
  /-- Children: test or `absent`, then the statements. -/
  | switchCase
  /-- Children: label `word`, body. -/
  | labeled
  | throwStatement
  /-- Child: value if any. -/
  | returnStatement
  /-- Children: block, `catchClause` or `absent`, block or `absent`. -/
  | tryStatement
  /-- Children: pattern or `absent`, block. -/
  | catchClause
  | debugger
  /-- Children: declarators. -/
  | variables (kind : VarKind)
  /-- Children: pattern, initializer or `absent`. -/
  | declarator
  -- Modules.
  /-- Children: specifiers, source string, and `importAttributes` if any. `bare` has no specifier
  list. -/
  | importStatement (phase : Option Phase) (bare : Bool)
  /-- Children: imported name, `binding`. -/
  | importName
  /-- Child: `binding`. -/
  | importDefault
  /-- Child: `binding`. -/
  | importNamespace
  /-- Children: `importAttribute`. The word before them is `assert` if `legacy`, else `with`. -/
  | importAttributes (legacy : Bool)
  /-- Children: key, value string. -/
  | importAttribute
  /-- Child: the declaration. -/
  | exportDeclaration
  /-- Children: specifiers, then the source string if any, then `importAttributes` if any. -/
  | exportNames (hasSource : Bool)
  /-- Children: local name, exported name. -/
  | exportName
  /-- Child: function, class or expression. -/
  | exportDefault
  /-- Children: exported name or `absent`, source string, and `importAttributes` if any. -/
  | exportAll
deriving DecidableEq, Repr, Inhabited

/-! ## Trees -/

/-- A syntax tree. -/
inductive Tree where
  | node (label : Label) (span : Span) (children : List Tree)
deriving Repr, Inhabited

namespace Tree

/-- The label of the root. -/
def label : Tree → Label
  | node l _ _ => l

/-- The span of the root. -/
def span : Tree → Span
  | node _ s _ => s

/-- The children of the root. -/
def children : Tree → List Tree
  | node _ _ cs => cs

@[simp] theorem label_node (l : Label) (s : Span) (cs : List Tree) : (node l s cs).label = l := rfl

@[simp] theorem span_node (l : Label) (s : Span) (cs : List Tree) : (node l s cs).span = s := rfl

@[simp] theorem children_node (l : Label) (s : Span) (cs : List Tree) :
    (node l s cs).children = cs := rfl

/-- The missing child. -/
def absent : Tree := node .absent .none []

/-- Whether a child is missing. -/
def isAbsent (t : Tree) : Bool :=
  match t.label with
  | .absent => true
  | _ => false

/-! ## Folding -/

mutual

/-- Bottom-up evaluation: the result at a node comes from its label, its span and its
children, each paired with its own result. -/
def fold {α : Type} (f : Label → Span → List (Tree × α) → α) : Tree → α
  | node l s cs => f l s (foldAll f cs)

/-- Every tree of a list with its result. -/
def foldAll {α : Type} (f : Label → Span → List (Tree × α) → α) : List Tree → List (Tree × α)
  | [] => []
  | t :: ts => (t, fold f t) :: foldAll f ts

end

/-- Folding a list is folding each member. -/
theorem foldAll_eq_map {α : Type} (f : Label → Span → List (Tree × α) → α) (ts : List Tree) :
    foldAll f ts = ts.map fun t => (t, fold f t) := by
  induction ts with
  | nil => simp [foldAll]
  | cons t ts ih => simp [foldAll, ih]

/-! ## Stripping parentheses -/

/-- The expression inside any number of parentheses. -/
def withoutParens : Tree → Tree
  | node .paren _ [t] => withoutParens t
  | t => t

end Tree

end Reactive.Script
