/-
  Statements.
-/
import Reactive.Script.Parser.Module

namespace Reactive.Script.Parser

/-! ## Variables -/

/-- A pattern without initializer is flawed, and so is a constant. -/
def checkInitializer (kind : VarKind) (declarator : Tree) : Parser Unit :=
  match declarator with
  | .node .declarator _ [p, v] =>
    if v.isAbsent then
      match p.label with
      | .binding _ => flawIf (kind = .constant || kind = .resource || kind = .asyncResource)
      | _ => flaw
    else pure ()
  | _ => pure ()

/-- One variable with its initializer. -/
def declaratorRule (r : Rules) : Parser Tree := do
  let begin ← start
  let p ← patternRule r
  let v ← if ← eatPunct "=" then assignmentRule r else pure .absent
  node .declarator begin [p, v]

/-- Variables with commas between. -/
def declarators (r : Rules) : Nat → Parser (List Tree)
  | 0 => throw .tooDeep
  | bound + 1 => do
    let d ← declaratorRule r
    if ← eatPunct "," then return d :: (← declarators r bound) else return [d]

/-- A variable declaration without its end; `checked` if initializers are required here. -/
def variablesRule (r : Rules) (kind : VarKind) (checked : Bool) : Parser Tree := do
  let begin ← start
  advanceKeyword
  if kind = .asyncResource then advanceKeyword
  let ds ← declarators r r.bound
  if checked then ds.forM (checkInitializer kind)
  node (.variables kind) begin ds

/-- A variable declaration with its end. -/
def variableStatement (r : Rules) (kind : VarKind) (place : Place) : Parser Tree := do
  let begin ← start
  let d ← variablesRule r kind true
  endStatement
  flawIf (place = .single && kind ≠ .var)
  match d with
  | .node l _ cs => node l begin cs

/-- `using name` on one line starts a declaration. In the head of a loop `of` is no such name. -/
def atUsing (inHead : Bool) : Parser Bool := do
  if ← atWord "using" then
    let t ← following
    match t.kind with
    | .word w => return isBindingWord w && !(inHead && w == "of") && !t.newlineBefore
    | _ => return false
  else return false

/-- `await using name` on one line starts a declaration. -/
def atAwaitUsing (inHead : Bool) : Parser Bool := do
  if ← atWord "await" then
    lookahead do
      advance
      let t ← token
      if t.newlineBefore then return false
      atUsing inHead
  else return false

/-! ## Expressions as statements -/

/-- The end of an expression statement. -/
def expressionEnd ( begin : Nat) (e : Tree) : Parser Tree := do
  endStatement
  node .expressionStatement begin [e]

/-- An expression statement, or a label with its statement. -/
def expressionStatement (r : Rules) : Parser Tree := do
  let begin ← start
  let e ← expressionRule r
  match e with
  | .node (.identifier n) s _ =>
    if ← eatPunct ":" then
      let body ← r.statement .single
      node .labeled begin [.node (.word n) s [], body]
    else expressionEnd begin e
  | _ => expressionEnd begin e

/-- A statement that starts with `let`: a declaration, unless what follows makes it a variable. -/
def letStatement (r : Rules) (place : Place) : Parser Tree := do
  let begin ← start
  let t ← following
  let isOperator := (AssignOp.ofToken? t.kind).isSome || (InfixOp.ofToken? t.kind).isSome
  if isOperator then
    let e ← assignmentRule r
    expressionEnd begin e
  else match t.kind with
    | .punct "." | .punct "(" =>
      -- The semicolon behind such an expression is a statement of its own.
      let e ← expressionRule r
      node .expressionStatement begin [e]
    | k =>
      if (place = .single && k ≠ .punct "[") || k = .punct ";" then
        let e ← identifierRule
        expressionEnd begin e
      else variableStatement r .lexical place

/-! ## Compound statements -/

/-- A test in parentheses. -/
def parenTest (r : Rules) : Parser Tree := do
  expectPunct "("
  let e ← within (fun c => { c with allowIn := true }) (expressionRule r)
  expectPunct ")"
  return e

/-- A block. -/
def blockRule (r : Rules) : Parser Tree := do
  let begin ← start
  expectPunct "\x7b"
  let items ← itemsUntil (return (← atPunct "\x7d") || (← atEnd)) (r.statement .list) r.bound
  expectPunct "\x7d"
  node .block begin items

/-- `if`. -/
def ifRule (r : Rules) : Parser Tree := do
  let begin ← start
  advanceKeyword
  let test ← parenTest r
  let yes ← r.statement .single
  if ← eatWord "else" then
    let no ← r.statement .single
    node .ifStatement begin [test, yes, no]
  else node .ifStatement begin [test, yes]

/-- `do … while`. -/
def doWhileRule (r : Rules) : Parser Tree := do
  let begin ← start
  advanceKeyword
  let body ← r.statement .single
  expectWord "while"
  let test ← parenTest r
  let _ ← eatPunct ";"
  node .doWhile begin [body, test]

/-- `while`. -/
def whileRule (r : Rules) : Parser Tree := do
  let begin ← start
  advanceKeyword
  let test ← parenTest r
  let body ← r.statement .single
  node .whileStatement begin [test, body]

/-- `with`. -/
def withRule (r : Rules) : Parser Tree := do
  let begin ← start
  advanceKeyword
  let object ← parenTest r
  let body ← r.statement .single
  node .withStatement begin [object, body]

/-! ## Loops over heads -/

/-- The rest of a `for` with semicolons, from the first semicolon on. -/
def forLoop (r : Rules) ( begin : Nat) (await : Bool) (init : Tree) : Parser Tree := do
  expectPunct ";"
  match init with
  | .node (.variables k) _ ds => ds.forM (checkInitializer k)
  | _ => pure ()
  let part (close : String) : Parser Tree := do
    if ← atPunct close then return .absent
    else within (fun c => { c with allowIn := true }) (expressionRule r)
  let test ← part ";"
  expectPunct ";"
  let update ← part ")"
  expectPunct ")"
  flawIf await
  let body ← r.statement .single
  node .forStatement begin [init, test, update, body]

/-- Resources are not declared by a loop over keys. -/
def checkLoopDeclaration (left : Tree) : Parser Unit :=
  match left.label with
  | .variables .resource | .variables .asyncResource => flaw
  | _ => pure ()

/-- The rest of a `for` over an object or iterable, from its keyword on. -/
def forEach (r : Rules) ( begin : Nat) (await : Bool) (left : Tree) : Parser Tree := do
  if ← eatWord "in" then
    checkLoopDeclaration left
    let object ← expressionRule r
    expectPunct ")"
    flawIf await
    let body ← r.statement .single
    node .forIn begin [left, object, body]
  else
    expectWord "of"
    let items ← assignmentRule r
    expectPunct ")"
    let body ← r.statement .single
    node (.forOf await) begin [left, items, body]

/-- `in` or `of` comes next. -/
def atForKeyword : Parser Bool := return (← atWord "in") || (← atWord "of")

/-- The declaration that a loop head starts with, if it does. -/
def forDeclaration? : Parser (Option VarKind) := do
  match ← kind with
  | .word "var" => return some .var
  | .word "const" => return some .constant
  | .word "let" =>
    let t ← following
    match t.kind with
    | .word w => return if w == "in" then none else some .lexical
    | .punct "[" | .punct "\x7b" => return some .lexical
    | _ => return none
  | .word "using" => return if ← atUsing true then some .resource else none
  | .word "await" => return if ← atAwaitUsing true then some .asyncResource else none
  | _ => return none

/-- `for`. -/
def forRule (r : Rules) : Parser Tree := do
  let begin ← start
  advanceKeyword
  let await ← atWord "await"
  if await then
    flawIf (!(← context).allowAwait)
    advanceKeyword
  expectPunct "("
  if ← atPunct ";" then forLoop r begin await .absent
  else match ← forDeclaration? with
    | some k =>
      let d ← within (fun c => { c with allowIn := false }) (variablesRule r k false)
      if ← atForKeyword then forEach r begin await d else forLoop r begin await d
    | none =>
      let startsLet ← atWord "let"
      let startsAsync ← atWord "async"
      let e ← within (fun c => { c with allowIn := false }) (expressionRule r)
      if ← atForKeyword then
        let target ← toTarget e
        let isOf ← atWord "of"
        flawIf (isOf && startsLet)
        flawIf (isOf && startsAsync && !await && (match e.label with
          | .identifier "async" => true
          | _ => false))
        forEach r begin await target
      else forLoop r begin await e

/-! ## Jumps -/

/-- `break` or `continue` with an optional label. -/
def jumpRule (label : Label) : Parser Tree := do
  let begin ← start
  advanceKeyword
  let target ← if ← canEnd then pure [] else pure [← labelName]
  endStatement
  node label begin target

/-- `return`. -/
def returnRule (r : Rules) : Parser Tree := do
  let begin ← start
  flawIf (!(← context).allowReturn)
  advanceKeyword
  let value ← if ← canEnd then pure []
    else pure [← within (fun c => { c with allowIn := true }) (expressionRule r)]
  endStatement
  node .returnStatement begin value

/-- `throw`, whose value starts on the same line. -/
def throwRule (r : Rules) : Parser Tree := do
  let begin ← start
  advanceKeyword
  flawIf (← token).newlineBefore
  let e ← expressionRule r
  endStatement
  node .throwStatement begin [e]

/-! ## Branches and handlers -/

/-- The next case of a `switch` or its end. -/
def atCaseEnd : Parser Bool := do
  match ← kind with
  | .word "case" | .word "default" | .punct "\x7d" | .endOfInput => return true
  | _ => return false

/-- One case of a `switch`. -/
def caseRule (r : Rules) : Parser Tree := do
  let begin ← start
  let test ← if ← eatWord "default" then pure .absent
    else do
      expectWord "case"
      expressionRule r
  expectPunct ":"
  let body ← itemsUntil atCaseEnd (r.statement .list) r.bound
  node .switchCase begin (test :: body)

/-- `switch`. -/
def switchRule (r : Rules) : Parser Tree := do
  let begin ← start
  advanceKeyword
  let subject ← parenTest r
  expectPunct "\x7b"
  let cases ← itemsUntil (return (← atPunct "\x7d") || (← atEnd)) (caseRule r) r.bound
  expectPunct "\x7d"
  node .switchStatement begin (subject :: cases)

/-- `catch` with its optional parameter. -/
def catchRule (r : Rules) : Parser Tree := do
  let begin ← start
  expectWord "catch"
  let p ← if ← eatPunct "(" then do
      let p ← patternRule r
      expectPunct ")"
      pure p
    else pure .absent
  let body ← blockRule r
  node .catchClause begin [p, body]

/-- `try`, which needs a handler or a final block. -/
def tryRule (r : Rules) : Parser Tree := do
  let begin ← start
  advanceKeyword
  let block ← blockRule r
  let handler ← if ← atWord "catch" then catchRule r else pure .absent
  let final ← if ← eatWord "finally" then blockRule r else pure .absent
  flawIf (handler.isAbsent && final.isAbsent)
  node .tryStatement begin [block, handler, final]

/-! ## Functions and classes as statements -/

/-- A function declaration, from `function` or `async` on. -/
def functionStatement (r : Rules) (place : Place) : Parser Tree := do
  let begin ← start
  let async ← eatWord "async"
  let f ← functionFrom r .declaration .required begin async
  let special := match f.label with
    | .function _ async generator .. => async || generator
    | _ => false
  flawIf (place = .single && special)
  return f

/-- A class declaration behind its decorators. -/
def classStatement (r : Rules) (place : Place) ( begin : Nat) (decorated : List Tree) :
    Parser Tree := do
  let c ← classFrom r .declaration begin decorated
  flawIf (place = .single)
  return c

/-- What can be exported by declaration. -/
def exportedDeclaration (r : Rules) : Parser Tree := do
  match ← kind with
  | .word "var" => variableStatement r .var .list
  | .word "let" => variableStatement r .lexical .list
  | .word "const" => variableStatement r .constant .list
  | .word "function" => functionStatement r .list
  | _ => if ← atAsyncFunction then functionStatement r .list else unexpected

/-- A statement that starts with decorators: a class, or an exported class. -/
def decoratedStatement (r : Rules) (place : Place) : Parser Tree := do
  let begin ← start
  let decorated ← decorators r
  if ← atWord "export" then exportStatement r decorated (exportedDeclaration r)
  else classStatement r place begin decorated

/-! ## Hints before statements -/

/-- Notes a hint on the function that the first constant of a declaration is. -/
def markQuietConstant : List Tree → List Tree
  | .node .declarator s [p, value] :: rest => .node .declarator s [p, markQuiet value] :: rest
  | ds => ds

/-- Notes a hint on the function that a statement declares. -/
def markQuietDeclaration : Tree → Tree
  | .node (.function form async generator wrapped _) s cs =>
    .node (.function form async generator wrapped true) s cs
  | .node (.variables .constant) s ds => .node (.variables .constant) s (markQuietConstant ds)
  | t => t

/-- Notes a hint on the function that a statement declares or exports. -/
def markQuietStatement : Tree → Tree
  | .node .exportDeclaration s [d] => .node .exportDeclaration s [markQuietDeclaration d]
  | .node .exportDefault s [value] => .node .exportDefault s [markQuiet value]
  | t => markQuietDeclaration t

/-! ## All statements -/

/-- A statement, leaving the hint before it aside. -/
def plainStatement (r : Rules) (place : Place) : Parser Tree := do
  let begin ← start
  match ← kind with
  | .punct "\x7b" => blockRule r
  | .punct ";" =>
    advance
    node .empty begin []
  | .punct "@" => decoratedStatement r place
  | .word w =>
    match w with
    | "if" => ifRule r
    | "do" => doWhileRule r
    | "while" => whileRule r
    | "for" => forRule r
    | "continue" => jumpRule .continueStatement
    | "break" => jumpRule .breakStatement
    | "with" => withRule r
    | "switch" => switchRule r
    | "throw" => throwRule r
    | "try" => tryRule r
    | "debugger" =>
      advanceKeyword
      endStatement
      node .debugger begin []
    | "class" => classStatement r place begin []
    | "export" => exportStatement r [] (exportedDeclaration r)
    | "return" => returnRule r
    | "var" => variableStatement r .var place
    | "const" => variableStatement r .constant place
    | "function" => functionStatement r place
    | "let" => if (← token).escaped then expressionStatement r else letStatement r place
    | "async" => if ← atAsyncFunction then functionStatement r place else expressionStatement r
    | "import" =>
      let t ← following
      match t.kind with
      | .punct "." | .punct "(" => expressionStatement r
      | _ => importStatement r
    | "using" =>
      if ← atUsing false then variableStatement r .resource place else expressionStatement r
    | "await" =>
      if ← atAwaitUsing false then variableStatement r .asyncResource place
      else expressionStatement r
    | _ => expressionStatement r
  | _ => expressionStatement r

/-- A statement, and the hint before it. -/
def statementRule (r : Rules) (place : Place) : Parser Tree := do
  let hinted := (← token).hints.contains .quietFunction
  let t ← plainStatement r place
  return if hinted then markQuietStatement t else t

/-! ## All rules -/

/-- The rules for texts nested at most `depth` deep. -/
def rules (bound : Nat) : Nat → Rules
  | 0 => {
      bound := bound
      expression := throw .tooDeep
      assignment := throw .tooDeep
      binary := fun _ => throw .tooDeep
      unary := throw .tooDeep
      operand := throw .tooDeep
      member := throw .tooDeep
      pattern := throw .tooDeep
      statement := fun _ => throw .tooDeep }
  | depth + 1 => {
      bound := bound
      expression := fun s => expressionRule (rules bound depth) s
      assignment := fun s => assignmentRule (rules bound depth) s
      binary := fun level s => binaryRule (rules bound depth) level s
      unary := fun s => unaryRule (rules bound depth) s
      operand := fun s => operandRule (rules bound depth) s
      member := fun s => memberRule (rules bound depth) s
      pattern := fun s => patternRule (rules bound depth) s
      statement := fun place s => statementRule (rules bound depth) place s }

end Reactive.Script.Parser
