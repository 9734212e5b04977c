/-
  Printing statements.

  A statement stands on lines of its own, behind the comments that lead it. The body of
  another statement follows on the same line; a block there opens on it.
-/
import Reactive.Script.Printer.Function

namespace Reactive.Script.Printer

/-! ## Bodies -/

/-- The part is a block. -/
def isBlock (p : Part) : Bool :=
  match p.label with
  | .block => true
  | _ => false

/-- The part is an empty statement. -/
def isEmpty (p : Part) : Bool :=
  match p.label with
  | .empty => true
  | _ => false

/-- The part is an `if`. -/
def isIf (p : Part) : Bool :=
  match p.label with
  | .ifStatement => true
  | _ => false

/-- The body of a statement, with the end of its line. -/
def bodyOf (p : Part) (m : Mode) : Writer Unit := do
  if isBlock p then
    put " "
    p.print { m with core := true }
    put "\n"
  else if isEmpty p then put ";\n"
  else
    modify fun page => { page with joinLine := true }
    p.print m

/-- Statements in braces. -/
def blockForm (ps : List Part) (m : Mode) : Writer Unit := braces (ps.map fun p => p.print m)

/-! ## Conditions -/

/-- The statement ends in an `if` without `else`, so that a following `else` would belong to it. -/
def endsInOpenIf : Tree → Bool
  | .node .ifStatement _ [_, _] => true
  | .node .ifStatement _ [_, _, alternative] => endsInOpenIf alternative
  | .node .forStatement _ [_, _, _, body] => endsInOpenIf body
  | .node .forIn _ [_, _, body] => endsInOpenIf body
  | .node (.forOf _) _ [_, _, body] => endsInOpenIf body
  | .node .whileStatement _ [_, body] => endsInOpenIf body
  | .node .withStatement _ [_, body] => endsInOpenIf body
  | .node .labeled _ [_, body] => endsInOpenIf body
  | _ => false

/-- The consequence of an `if`, up to the place of its `else`. -/
def consequence (p : Part) (m : Mode) (hasElse : Bool) : Writer Unit := do
  if isBlock p then
    put " "
    p.print { m with core := true }
    put (if hasElse then " " else "\n")
  else if endsInOpenIf p.tree then
    put " "
    braces [p.print m]
    put (if hasElse then " " else "\n")
  else
    bodyOf p m
    if hasElse then indent

/-- An `if`, with the end of its line. -/
def ifText (ps : List Part) (m : Mode) : Writer Unit := do
  let inner : Mode := { m with core := false }
  word "if"
  put " ("
  (nth ps 0).print {}
  put ")"
  let alternative := nth ps 2
  consequence (nth ps 1) inner (!alternative.isAbsent)
  unless alternative.isAbsent do
    word "else"
    if isIf alternative then
      put " "
      alternative.print { inner with core := true }
    else bodyOf alternative inner

/-- An `if` statement. -/
def ifForm (span : Span) (ps : List Part) (m : Mode) : Writer Unit :=
  line span m (ifText ps m) ""

/-! ## Loops -/

/-- `do … while (…)`. -/
def doWhileForm (span : Span) (ps : List Part) (m : Mode) : Writer Unit :=
  line span m (do
    let body := nth ps 0
    put "do"
    if isBlock body then
      put " "
      body.print { m with core := true }
      put " "
    else if isEmpty body then body.print m
    else
      put "\n"
      indented (body.print m)
      indent
    put "while ("
    (nth ps 1).print {}
    put ")") ";\n"

/-- `while (…) …`. -/
def whileForm (span : Span) (ps : List Part) (m : Mode) : Writer Unit :=
  line span m (do
    put "while ("
    (nth ps 0).print {}
    put ")"
    bodyOf (nth ps 1) m) ""

/-- An optional part of a `for` head. -/
def headPart (p : Part) : Writer Unit :=
  if p.isAbsent then nothing
  else do
    put " "
    p.print {}

/-- `for (…; …; …) …`. -/
def forForm (span : Span) (ps : List Part) (m : Mode) : Writer Unit :=
  line span m (do
    put "for ("
    (nth ps 0).print { forbidIn := true, core := true }
    put ";"
    headPart (nth ps 1)
    put ";"
    headPart (nth ps 2)
    put ")"
    bodyOf (nth ps 3) m) ""

/-- The left side of a loop over something; a bare `async` would be read as part of the head. -/
def loopTarget (p : Part) (m : Mode) : Writer Unit :=
  let wrapped := match p.label with
    | .identifier "async" => true
    | _ => false
  wrapIf wrapped (p.target { m with core := true })

/-- `for (… in …) …`. -/
def forInForm (span : Span) (ps : List Part) (m : Mode) : Writer Unit :=
  line span m (do
    put "for ("
    loopTarget (nth ps 0) { forbidIn := true }
    put " in "
    (nth ps 1).print {}
    put ")"
    bodyOf (nth ps 2) m) ""

/-- `for (… of …) …`. -/
def forOfForm ( await : Bool) (span : Span) (ps : List Part) (m : Mode) : Writer Unit :=
  line span m (do
    put (if await then "for await (" else "for (")
    loopTarget (nth ps 0) m.inherited
    put " of "
    (nth ps 1).level Level.comma
    put ")"
    bodyOf (nth ps 2) m) ""

/-! ## Other statements -/

/-- An expression as a statement. -/
def expressionStatementForm (span : Span) (ps : List Part) (m : Mode) : Writer Unit :=
  if m.core then (nth ps 0).print { m with core := false }
  else line span m (do
    markStatement
    (nth ps 0).print {}) ";\n"

/-- A keyword with an optional operand. -/
def keywordForm (keyword : String) (span : Span) (ps : List Part) (m : Mode) : Writer Unit :=
  line span m (do
    put keyword
    unless (nth ps 0).isAbsent do
      put " "
      (nth ps 0).print {}) ";\n"

/-- `with(…) …`. -/
def withForm (span : Span) (ps : List Part) (m : Mode) : Writer Unit :=
  line span m (do
    put "with("
    (nth ps 0).print {}
    put ")"
    bodyOf (nth ps 1) m) ""

/-- `name: …`. -/
def labeledForm (span : Span) (ps : List Part) (m : Mode) : Writer Unit :=
  line span m (do
    (nth ps 0).print {}
    put ":"
    bodyOf (nth ps 1) m) ""

/-- One case of a switch: a single statement follows on its line. -/
def caseForm (ps : List Part) (m : Mode) : Writer Unit := do
  indent
  if (nth ps 0).isAbsent then put "default"
  else
    put "case "
    (nth ps 0).print {}
  put ":"
  match ps.drop 1 with
  | [p] => bodyOf p m
  | items =>
    put "\n"
    indented (items.forM fun p => p.print m)

/-- A switch. -/
def switchForm (span : Span) (ps : List Part) (m : Mode) : Writer Unit :=
  line span m (do
    put "switch ("
    (nth ps 0).print {}
    put ") "
    braces ((ps.drop 1).map fun p => p.print m)) "\n"

/-- `catch (…) { … }`, with the comments before it and before its block. -/
def catchForm (span : Span) (ps : List Part) (m : Mode) : Writer Unit := do
  put " "
  commentsAt span.start
  put "catch"
  unless (nth ps 0).isAbsent do
    put " ("
    (nth ps 0).print {}
    put ")"
  put " "
  commentsBefore (nth ps 1).start
  (nth ps 1).print { m with core := true }

/-- `try { … } …`. -/
def tryForm (span : Span) (ps : List Part) (m : Mode) : Writer Unit :=
  line span m (do
    put "try "
    (nth ps 0).print { m with core := true }
    (nth ps 1).print m
    unless (nth ps 2).isAbsent do
      put " finally "
      (nth ps 2).print { m with core := true }) "\n"

/-- The words that open a declaration of variables. -/
def VarKind.words : VarKind → String
  | .var => "var"
  | .lexical => "let"
  | .constant => "const"
  | .resource => "using"
  | .asyncResource => "await using"

/-- A declaration of variables. -/
def variablesForm (kind : VarKind) (span : Span) (ps : List Part) (m : Mode) : Writer Unit :=
  line span m (do
    put (VarKind.words kind ++ " ")
    commas (ps.map fun p => p.print { m with core := false })) ";\n"

/-- One declared variable. -/
def declaratorForm (ps : List Part) (m : Mode) : Writer Unit := do
  (nth ps 0).print m
  unless (nth ps 1).isAbsent do
    put " = "
    (nth ps 1).print { m with level := Level.comma }

end Reactive.Script.Printer
