/-
  Printing expressions.

  Parentheses of the source are dropped and put back from the levels: an expression is
  wrapped where it binds no stronger than its surroundings ask. A few places need more:
  an object, a function or a class must not open a statement, and an object must not open
  the body of an arrow.
-/
import Reactive.Script.Printer.Part

namespace Reactive.Script.Printer

/-! ## Operators -/

/-- The levels for the two sides of a binary operator: the side it groups to may hold the operator
again. -/
def binarySides (op : BinaryOp) : Nat × Nat :=
  match op with
  | .exp => (op.level, op.level - 1)
  | _ => (op.level - 1, op.level)

/-- The left side of `**` with an operator in front of it. -/
def hasPrefixOperator (t : Tree) : Bool :=
  match t.withoutParens.label with
  | .unary _ => true
  | _ => false

/-- The expression is a test for a private name, parentheses aside. -/
def isPrivateTest (t : Tree) : Bool :=
  match t.withoutParens.label with
  | .privateIn => true
  | _ => false

/-- The level for the left side of a binary operator. -/
def binaryLeftLevel (op : BinaryOp) (left : Tree) : Nat :=
  match op with
  | .exp => if hasPrefixOperator left then Level.call else (binarySides op).1
  | _ => (binarySides op).1

/-- `a op b`. A test for a private name on the left never has parentheses. -/
def infixForm (wrapped : Bool) (m : Mode) (op : String) (left right : Part)
    (leftLevel rightLevel : Nat) : Writer Unit :=
  let forbidIn := m.forbidIn && !wrapped
  wrapIf wrapped do
    if isPrivateTest left.tree then left.print {}
    else left.print { m with level := leftLevel, forbidIn := forbidIn }
    put (" " ++ op ++ " ")
    right.print { m with level := rightLevel, forbidIn := forbidIn }

/-- A binary operator. -/
def binaryForm (op : BinaryOp) (ps : List Part) (m : Mode) : Writer Unit :=
  let wrapped := op.level ≤ m.level || (op = .isIn && m.forbidIn)
  infixForm wrapped m op.text (nth ps 0) (nth ps 1)
    (binaryLeftLevel op (nth ps 0).tree) (binarySides op).2

/-- The level for a side of a logical operator: `&&` and `||` do not mix with `??`. -/
def logicalSideLevel (op : LogicalOp) (side : Tree) : Nat :=
  match op, side.withoutParens.label with
  | .coalesce, .logical .and | .coalesce, .logical .or => Level.prefixed
  | _, _ => op.level - 1

/-- A logical operator. -/
def logicalForm (op : LogicalOp) (ps : List Part) (m : Mode) : Writer Unit :=
  let wrapped : Bool := op.level ≤ m.level
  infixForm wrapped m op.text (nth ps 0) (nth ps 1)
    (logicalSideLevel op (nth ps 0).tree) (logicalSideLevel op (nth ps 1).tree)

/-- `#name in object`. -/
def privateInForm (ps : List Part) (m : Mode) : Writer Unit :=
  wrapIf (Level.compare ≤ m.level) do
    (nth ps 0).print m
    put " in "
    (nth ps 1).print { level := Level.equals, forbidIn := true }

/-- The number is an overflow, which stands for the name `Infinity`. -/
def isOverflow (t : Tree) : Bool :=
  match t.label with
  | .number .infinite => true
  | _ => false

/-- A prefix operator. -/
def unaryForm (op : UnaryOp) (ps : List Part) (m : Mode) : Writer Unit :=
  let operand := nth ps 0
  wrapIf (Level.prefixed ≤ m.level) do
    if op.isWord then
      word op.text
      put " "
    else
      let sign := op.text.front
      signBreak sign
      put op.text
      markSign sign
    if op = .delete && isOverflow operand.tree then
      put "(0, "
      operand.print { m with level := Level.exponentiation }
      put ")"
    else operand.print { m with level := Level.exponentiation }

/-- An increment or decrement. -/
def updateForm (op : UpdateOp) (before : Bool) (ps : List Part) (m : Mode) : Writer Unit := do
  let sign := op.text.front
  if before then
    wrapIf (Level.prefixed ≤ m.level) do
      signBreak sign
      put op.text
      (nth ps 0).print { m with level := Level.prefixed }
  else
    wrapIf (Level.postfixed ≤ m.level) do
      signBreak sign
      (nth ps 0).print { m with level := Level.postfixed }
      put op.text

/-- `await value`. -/
def awaitForm (ps : List Part) (m : Mode) : Writer Unit :=
  wrapIf (Level.prefixed ≤ m.level) do
    word "await"
    put " "
    (nth ps 0).print { m with level := Level.exponentiation }

/-- `yield value`. -/
def yieldForm (delegate : Bool) (ps : List Part) (m : Mode) : Writer Unit :=
  wrapIf (Level.assign ≤ m.level) do
    word "yield"
    if delegate then put "*"
    unless (nth ps 0).isAbsent do
      put " "
      (nth ps 0).level Level.yield

/-- `test ? a : b`. -/
def conditionalForm (ps : List Part) (m : Mode) : Writer Unit :=
  let wrapped : Bool := Level.conditional ≤ m.level
  let forbidIn := m.forbidIn && !wrapped
  wrapIf wrapped do
    (nth ps 0).print { level := Level.conditional, forbidIn := forbidIn }
    put " ? "
    (nth ps 1).level Level.yield
    put " : "
    (nth ps 2).print { level := Level.yield, forbidIn := forbidIn }

/-- The target is an object pattern. -/
def isObjectTarget (t : Tree) : Bool :=
  match t.label with
  | .objectTarget => true
  | _ => false

/-- `target op value`. -/
def assignForm (op : AssignOp) (ps : List Part) (m : Mode) : Writer Unit := do
  let opens := (← atStatement) || (← atArrow)
  let wrapped := (opens && isObjectTarget (nth ps 0).tree) || Level.assign ≤ m.level
  wrapIf wrapped do
    (nth ps 0).target { m with level := Level.comma }
    put (" " ++ op.text ++ " ")
    (nth ps 1).print { m with level := Level.comma }

/-- `a, b`. -/
def sequenceForm (ps : List Part) (m : Mode) : Writer Unit :=
  wrapIf (Level.comma ≤ m.level) do
    commas (ps.map fun p => p.print { level := Level.lowest, forbidIn := m.forbidIn })

/-! ## Arguments -/

/-- Arguments of a call that ends at `stop`: in one row, or on lines of their own if a comment
leads one of them. -/
def arguments (args : List Part) (stop : Nat) : Writer Unit := do
  put "("
  let commented := (← args.filterM fun a => hasComment a.start).length > 0
  let atClose ← hasComment (stop - 1)
  if commented || atClose then
    indented do
      separated (put ",") (args.map fun a => do
        unless ← argumentComments a.start do put "\n"
        indent
        a.level Level.comma)
      unless ← argumentComments (stop - 1) do put "\n"
    indent
  else commas (args.map fun a => a.level Level.comma)
  put ")"

/-- The hint before a call that may be dropped, as a comment. -/
def pureMark (pure : Bool) : Writer Unit := if pure then put "/* @__PURE__ */ " else nothing

/-- A call with a hint is set off from the steps behind it. -/
def wrapsPure (pure : Bool) (m : Mode) : Bool := pure && Level.postfixed ≤ m.level

/-- A call. A mark before it holds for its callee too. -/
def callForm (optional pure : Bool) (span : Span) (ps : List Part) (m : Mode) : Writer Unit := do
  let statement ← atStatement
  let exported ← atDefault
  wrapIf (Level.new ≤ m.level || m.forbidCall || wrapsPure pure m) do
    pureMark pure
    if exported then markDefault
    else if statement then markStatement
    (nth ps 0).level Level.postfixed
    if optional then put "?."
    arguments (ps.drop 1) span.stop

/-- `new Callee(…)`. -/
def newForm (pure : Bool) (span : Span) (ps : List Part) (m : Mode) : Writer Unit :=
  wrapIf (Level.call ≤ m.level || wrapsPure pure m) do
    pureMark pure
    word "new"
    put " "
    (nth ps 0).print { level := Level.new, forbidCall := true }
    arguments (ps.drop 1) span.stop

/-- The phase of an import as a word. -/
def phaseText : Phase → String
  | .source => "source"
  | .defer => "defer"

/-- The source and options of `import(…)`: in one row, or on lines of their own if a comment
leads one of them. Comments before the options are not printed. -/
def importArguments (args : List Part) (stop : Nat) : Writer Unit := do
  put "("
  let commented := (← args.filterM fun a => hasComment a.start).length > 0
  let atClose ← hasComment (stop - 1)
  if commented || atClose then
    indented do
      unless ← argumentComments (nth args 0).start do put "\n"
      separated (put ",\n") (args.map fun a => do
        indent
        a.level Level.comma)
      unless ← argumentComments (stop - 1) do put "\n"
  else commas (args.map fun a => a.level Level.comma)
  put ")"

/-- `import(source)`. -/
def importCallForm (phase : Option Phase) (span : Span) (ps : List Part) (m : Mode) :
    Writer Unit :=
  wrapIf (Level.new ≤ m.level || m.forbidCall) do
    word "import"
    match phase with
    | some p => put ("." ++ phaseText p)
    | none => nothing
    importArguments ps span.stop

/-! ## Members -/

/-- `object.name`. -/
def memberForm (optional : Bool) (ps : List Part) (m : Mode) : Writer Unit := do
  (nth ps 0).print { level := Level.postfixed, forbidCall := m.forbidCall }
  if optional then put "?"
  else
    let p ← get
    if p.integerEnd == some p.size then put " "
  put "."
  (nth ps 1).print {}

/-- `object.#name`. -/
def privateMemberForm (optional : Bool) (ps : List Part) (m : Mode) : Writer Unit := do
  (nth ps 0).print { level := Level.postfixed, forbidCall := m.forbidCall }
  if optional then put "?"
  put "."
  (nth ps 1).print {}

/-- The expression is the variable `let`, which an index must not follow bare. -/
def isLetName (t : Tree) : Bool :=
  match t.withoutParens.label with
  | .identifier "let" => true
  | _ => false

/-- `object[index]`. -/
def indexForm (optional : Bool) (ps : List Part) (m : Mode) : Writer Unit := do
  wrapIf (isLetName (nth ps 0).tree) do
    (nth ps 0).print { level := Level.postfixed, forbidCall := m.forbidCall }
  if optional then put "?."
  put "["
  (nth ps 1).print {}
  put "]"

/-- Steps with an optional one among them. -/
def chainForm (ps : List Part) (m : Mode) : Writer Unit :=
  wrapIf (Level.postfixed ≤ m.level) ((nth ps 0).print m)

/-- `first.second` of keywords. -/
def metaForm (ps : List Part) : Writer Unit := do
  wordBreak
  (nth ps 0).print {}
  put "."
  (nth ps 1).print {}

/-! ## Templates -/

/-- Texts and holes in turn. -/
def templateParts : List Part → List Part → Writer Unit
  | [], _ => nothing
  | t :: ts, [] => do
    t.print {}
    templateParts ts []
  | t :: ts, h :: hs => do
    t.print {}
    put "$\x7b"
    h.print {}
    put "\x7d"
    templateParts ts hs

/-- The part is a text of a template. -/
def isTemplateText (p : Part) : Bool :=
  match p.label with
  | .templateText _ => true
  | _ => false

/-- A template. -/
def templateForm (ps : List Part) : Writer Unit := do
  let (texts, holes) := ps.partition isTemplateText
  put "`"
  templateParts texts holes
  put "`"

/-- A template with a tag. -/
def taggedForm (ps : List Part) : Writer Unit := do
  (nth ps 0).level Level.postfixed
  (nth ps 1).print {}

/-! ## Arrays and objects -/

/-- The elements of an array; a hole at the end needs a comma of its own. -/
def elements (ps : List Part) : List (Writer Unit) :=
  let last := ps.length - 1
  ps.mapIdx fun i p => do
    p.level Level.comma
    if i == last && p.isAbsent then put ","

/-- An array, on one line if it has at most two elements. -/
def arrayForm (ps : List Part) : Writer Unit := do
  if ps.length > 2 then stacked "[" "]" (elements ps)
  else
    put "["
    commas (elements ps)
    put "]"

/-- An object, on one line if it has at most one property. -/
def objectForm (span : Span) (ps : List Part) (m : Mode) : Writer Unit := do
  let commented ← hasComment span.start
  let wrapped := commented || (← atStatement) || (← atArrow)
  wrapIf wrapped do
    if commented then
      commentsAt span.start
      indent
    match ps with
    | [] => put "\x7b\x7d"
    | [p] =>
      put "\x7b "
      p.print m.inherited
      put " \x7d"
    | _ => stacked "\x7b" "\x7d" (ps.map fun p => p.print m.inherited)

/-- A key, in brackets if computed. -/
def keyForm (computed : Bool) (key : Part) : Writer Unit := do
  if computed then
    put "["
    key.level Level.comma
    put "]"
  else key.level Level.comma

/-- A property whose key names the variable that is its value. -/
def isShorthand (shorthand : Bool) (key value : Tree) : Bool :=
  match key.label, value.withoutParens.label with
  | .word "__proto__", _ => shorthand
  | .word k, .identifier v => k == v
  | _, _ => false

/-- The words before the key of a method. -/
def methodWords (f : Tree) : String :=
  match f.label with
  | .function _ async generator .. =>
    (if async then "async " else "") ++ (if generator then "*" else "")
  | _ => ""

/-- The word before the key of an accessor. -/
def propertyWord : PropertyKind → String
  | .init => ""
  | .get => "get "
  | .set => "set "

/-- A property of an object. What the surroundings ask reaches into a method, not into a value. -/
def propertyForm (kind : PropertyKind) (method shorthand computed : Bool) (ps : List Part)
    (m : Mode) : Writer Unit := do
  let key := nth ps 0
  let value := nth ps 1
  if method || kind != .init then
    put (propertyWord kind ++ methodWords value.tree)
    keyForm computed key
    value.print m
  else
    unless isShorthand shorthand key.tree value.tree do
      keyForm (computed || isOverflow key.tree) key
      put ": "
    value.level Level.comma

/-- `...value`. -/
def spreadForm (ps : List Part) : Writer Unit := do
  put "..."
  (nth ps 0).level Level.comma

end Reactive.Script.Printer
