/-
  Printing functions and classes.
-/
import Reactive.Script.Printer.Pattern

namespace Reactive.Script.Printer

/-! ## Parameters and decorators -/

/-- The part is a decorator. -/
def isDecorator (p : Part) : Bool :=
  match p.label with
  | .decorator => true
  | _ => false

/-- Decorators, each with a blank behind it. -/
def decorators (ps : List Part) : Writer Unit :=
  (ps.filter isDecorator).forM fun d => do
    d.print {}
    put " "

/-- The children that are no decorators. -/
def undecorated (ps : List Part) : List Part := ps.filter fun p => !isDecorator p

/-- A decorator that needs no parentheses: a name, a member, or a call of one. -/
def isPlainDecorator : Tree → Bool
  | .node (.identifier _) _ _ | .node (.member _) _ _ | .node (.privateMember _) _ _ => true
  | .node (.call ..) _ (callee :: _) => isPlainDecorator callee
  | _ => false

/-- `@expression`. -/
def decoratorForm (ps : List Part) : Writer Unit := do
  put "@"
  wrapIf (!isPlainDecorator (nth ps 0).tree) ((nth ps 0).print {})

/-- One parameter. -/
def parameterForm (ps : List Part) (m : Mode) : Writer Unit := do
  decorators ps
  let ps := undecorated ps
  (nth ps 0).print m
  unless (nth ps 1).isAbsent do
    put " = "
    (nth ps 1).print { m with level := Level.comma }

/-- The rest parameter. -/
def restParameterForm (ps : List Part) (m : Mode) : Writer Unit := do
  decorators ps
  put "..."
  (nth (undecorated ps) 0).print m

/-- Parameters in parentheses. -/
def parametersForm (ps : List Part) (m : Mode) : Writer Unit := do
  put "("
  commas (ps.map fun p => p.print m)
  put ")"

/-! ## Bodies -/

/-- The expression of an expression statement, if it is a string. -/
def stringStatement? (t : Tree) : Option (List Nat) :=
  match t with
  | .node .expressionStatement _ [e] =>
    match e.withoutParens.label with
    | .string v => some v
    | _ => none
  | _ => none

/-- Directives and statements. A string that opens them without being a directive stands in
parentheses, so that it is not read as one. -/
def statementList (ps : List Part) (m : Mode) : Writer Unit := do
  match ps with
  | [] => nothing
  | first :: rest =>
    match stringStatement? first.tree with
    | some v =>
      put "("
      string v
      put ");\n"
    | none => first.print m
    rest.forM fun p => p.print m

/-- Comments that fit between the braces of an empty body. -/
def fitInside (cs : List Comment) : Bool :=
  cs.all fun c => c.kind != .line && !c.newlineBefore && !c.newlineAfter

/-- The body of a function in braces, with the comments before the closing one. -/
def bodyForm (span : Span) (ps : List Part) (m : Mode) : Writer Unit := do
  let atClose ← takeComments (span.stop - 1)
  put "\x7b"
  if ps.isEmpty && fitInside atClose then
    commentRow atClose
  else
    put "\n"
    indented do
      statementList ps m
      commentRow atClose
    indent
  put "\x7d"

/-- The expression of an arrow without braces. -/
def conciseBody (ps : List Part) (m : Mode) : Writer Unit := do
  markArrow
  (nth ps 0).print { m with level := Level.comma, core := true }

/-! ## Functions -/

/-- A function from its parameters on; a semicolon stands for a missing body. -/
def functionTail (ps : List Part) (m : Mode) : Writer Unit := do
  (nth ps 1).print m
  if (nth ps 2).isAbsent then put ";"
  else
    put " "
    (nth ps 2).print m

/-- A function with its keyword. -/
def functionText (async generator : Bool) (ps : List Part) (m : Mode) : Writer Unit := do
  let inner : Mode := { forbidIn := m.forbidIn }
  word (if async then "async function" else "function")
  if generator then put "* "
  unless (nth ps 0).isAbsent do
    wordBreak
    (nth ps 0).print inner
  functionTail ps inner

/-- The hint that calls of a function have no effect, as a comment. -/
def quietMark : String := "/* @__NO_SIDE_EFFECTS__ */"

/-- The hint before a function expression. -/
def quietBefore (quiet : Bool) : Writer Unit := if quiet then put (quietMark ++ " ") else nothing

/-- The hint before a declared function, on a line of its own. -/
def quietAbove (quiet : Bool) : Writer Unit := do
  if quiet then
    put (quietMark ++ "\n")
    indent

/-- A function: on lines of its own as a declaration, from its parameters on as a method, and in
parentheses where it would open a statement. -/
def functionForm (form : FunctionForm) (async generator wrapped quiet : Bool) (span : Span)
    (ps : List Part) (m : Mode) : Writer Unit := do
  match form with
  | .method => functionTail ps m.inherited
  | .exported => functionText async generator ps m
  | .declaration =>
    line span m (do
      unless m.core do quietAbove quiet
      functionText async generator ps m) "\n"
  | .expression =>
    quietBefore quiet
    let opens := (← atStatement) || (← atDefault)
    wrapIf (opens || wrapped) (functionText async generator ps m)

/-- An arrow. -/
def arrowForm (async concise wrapped quiet : Bool) (ps : List Part) (m : Mode) : Writer Unit :=
  wrapIf (Level.assign ≤ m.level || wrapped) do
    quietBefore quiet
    if async then
      word "async"
      put " "
    (nth ps 0).print m.inherited
    put " => "
    (nth ps 1).print { m.inherited with core := concise }

/-! ## Classes -/

/-- A class with its decorators. -/
def classText (ps : List Part) (m : Mode) : Writer Unit := do
  let inner : Mode := { forbidIn := m.forbidIn }
  decorators ps
  let ps := undecorated ps
  word "class"
  unless (nth ps 0).isAbsent do
    put " "
    (nth ps 0).print inner
  unless (nth ps 1).isAbsent do
    put " extends "
    (nth ps 1).level Level.postfixed
  unless (nth ps 2).isAbsent do
    put " implements "
    (nth ps 2).print {}
  put " "
  (nth ps 3).print inner

/-- A class: on lines of its own as a declaration, and in parentheses where it would open a
statement. -/
def classForm (form : ClassForm) (span : Span) (ps : List Part) (m : Mode) : Writer Unit := do
  match form with
  | .exported => classText ps m
  | .declaration => line span m (classText ps m) "\n"
  | .expression =>
    let opens := (← atStatement) || (← atDefault)
    wrapIf opens (classText ps m)

/-- Members of a class, each with the comments that lead it. -/
def classBodyForm (ps : List Part) (m : Mode) : Writer Unit :=
  braces (ps.map fun p => do
    commentsAt p.start
    indent
    p.print m)

/-- Words that are present, each with a blank behind it. -/
def wordsIf (words : List (Bool × String)) : String :=
  String.join ((words.filter (·.1)).map fun w => w.2 ++ " ")

/-- The word for who may use a member. -/
def Access.text : Access → String
  | .anyone => "public"
  | .heirs => "protected"
  | .owner => "private"

/-- The word for who may use a member, if it has one. -/
def accessWord (marks : Modifiers) : Bool × String :=
  (marks.access.isSome, (marks.access.map Access.text).getD "")

/-- The marks behind the name of a member. -/
def nameMarks (marks : Modifiers) : String :=
  (if marks.optional then "?" else "") ++ (if marks.definite then "!" else "")

/-- A method of a class. -/
def methodForm (kind : MethodKind) (computed : Bool) (marks : Modifiers) (ps : List Part)
    (m : Mode) : Writer Unit := do
  decorators ps
  let ps := undecorated ps
  put (wordsIf [accessWord marks, (marks.unfinished, "abstract"), (marks.static, "static"),
    (kind = .get, "get"), (kind = .set, "set")])
  put (methodWords (nth ps 1).tree)
  keyForm computed (nth ps 0)
  put (nameMarks marks)
  (nth ps 1).print m
  put "\n"

/-- The words before the name of a field. -/
def fieldWords (accessor : Bool) (marks : Modifiers) : String :=
  if accessor then
    wordsIf [(marks.unfinished, "abstract"), accessWord marks, (marks.static, "static"),
      (marks.overrides, "override"), (true, "accessor")]
  else
    wordsIf [(marks.ambient, "declare"), accessWord marks, (marks.unfinished, "abstract"),
      (marks.static, "static"), (marks.fixed, "readonly")]

/-- A field of a class. -/
def fieldForm (computed accessor : Bool) (marks : Modifiers) (ps : List Part) : Writer Unit := do
  decorators ps
  let ps := undecorated ps
  put (fieldWords accessor marks)
  keyForm computed (nth ps 0)
  put (nameMarks marks)
  unless (nth ps 1).isAbsent do
    put " = "
    (nth ps 1).level Level.comma
  put ";\n"

/-- `static { … }`. -/
def staticBlockForm (ps : List Part) (m : Mode) : Writer Unit := do
  put "static "
  openBraces (ps.map fun p => p.print m)
  put "\n"

end Reactive.Script.Printer
