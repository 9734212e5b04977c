/-
  Expressions.

  From the inside out: literals and primary expressions, member steps and calls, prefix
  and postfix operators, binary operators by precedence, arrows, assignments and commas.
-/
import Reactive.Script.Operator
import Reactive.Script.Parser.Class
import Reactive.Script.Parser.Target

namespace Reactive.Script

/-! ## Operators as tokens -/

/-- The operator that a punctuator or word stands for. -/
def InfixOp.ofToken? : TokenKind → Option InfixOp
  | .punct "==" => some (.binary .eq)
  | .punct "!=" => some (.binary .ne)
  | .punct "===" => some (.binary .strictEq)
  | .punct "!==" => some (.binary .strictNe)
  | .punct "<" => some (.binary .lt)
  | .punct "<=" => some (.binary .le)
  | .punct ">" => some (.binary .gt)
  | .punct ">=" => some (.binary .ge)
  | .punct "<<" => some (.binary .shl)
  | .punct ">>" => some (.binary .shr)
  | .punct ">>>" => some (.binary .ushr)
  | .punct "+" => some (.binary .add)
  | .punct "-" => some (.binary .sub)
  | .punct "*" => some (.binary .mul)
  | .punct "/" => some (.binary .div)
  | .punct "%" => some (.binary .rem)
  | .punct "**" => some (.binary .exp)
  | .punct "|" => some (.binary .bitOr)
  | .punct "^" => some (.binary .bitXor)
  | .punct "&" => some (.binary .bitAnd)
  | .punct "&&" => some (.logical .and)
  | .punct "||" => some (.logical .or)
  | .punct "??" => some (.logical .coalesce)
  | .word "in" => some (.binary .isIn)
  | .word "instanceof" => some (.binary .instanceOf)
  | _ => none

/-- The assignment operator that a punctuator stands for. -/
def AssignOp.ofToken? : TokenKind → Option AssignOp
  | .punct "=" => some .plain
  | .punct "+=" => some (.binary .add)
  | .punct "-=" => some (.binary .sub)
  | .punct "*=" => some (.binary .mul)
  | .punct "/=" => some (.binary .div)
  | .punct "%=" => some (.binary .rem)
  | .punct "**=" => some (.binary .exp)
  | .punct "<<=" => some (.binary .shl)
  | .punct ">>=" => some (.binary .shr)
  | .punct ">>>=" => some (.binary .ushr)
  | .punct "|=" => some (.binary .bitOr)
  | .punct "^=" => some (.binary .bitXor)
  | .punct "&=" => some (.binary .bitAnd)
  | .punct "&&=" => some (.logical .and)
  | .punct "||=" => some (.logical .or)
  | .punct "??=" => some (.logical .coalesce)
  | _ => none

/-- The prefix operator that a token stands for. -/
def UnaryOp.ofToken? : TokenKind → Option UnaryOp
  | .punct "+" => some .plus
  | .punct "-" => some .minus
  | .punct "!" => some .not
  | .punct "~" => some .bitNot
  | .word "typeof" => some .typeof
  | .word "void" => some .void
  | .word "delete" => some .delete
  | _ => none

/-- The increment or decrement that a punctuator stands for. -/
def UpdateOp.ofToken? : TokenKind → Option UpdateOp
  | .punct "++" => some .increment
  | .punct "--" => some .decrement
  | _ => none

namespace Parser

/-- The context inside brackets of any kind. -/
def bracketed {α : Type} (p : Parser α) : Parser α :=
  within (fun c => { c with allowIn := true, inDecorator := false }) p

/-- The token can start an operand that follows a word on the same line. -/
def startsPlainOperand (t : Token) : Bool :=
  match t.kind with
  | .word _ | .number _ | .bigint _ | .string _ => !t.newlineBefore
  | _ => false

/-! ## Templates -/

/-- Reads the piece of a template behind the brace that closes a hole. -/
def continueTemplate : Parser Unit := do
  unless ← atPunct "\x7d" do unexpected
  let s ← get
  let scan := scanTemplatePiece (s.here.skip 1)
  set { s with
    token := ⟨scan.kind, s.token.start, scan.next.offset, s.token.newlineBefore, false, []⟩
    next := scan.next
    flaws := if scan.flawed then s.token.start :: s.flaws else s.flaws }

/-- The pieces and holes of a template from the current piece on. -/
def templateParts (r : Rules) (tagged : Bool) : Nat → Parser (List Tree × List Tree)
  | 0 => throw .tooDeep
  | bound + 1 => do
    let t ← token
    match t.kind with
    | .template raw valid last =>
      flawIf (!tagged && !valid)
      let piece := Tree.node (.templateText raw) ⟨t.start, t.stop⟩ []
      advance
      if last then return ([piece], [])
      else
        let hole ← bracketed r.expression
        continueTemplate
        let (pieces, holes) ← templateParts r tagged bound
        return (piece :: pieces, hole :: holes)
    | _ => unexpected

/-- A template literal. -/
def templateRule (r : Rules) (tagged : Bool) : Parser Tree := do
  let begin ← start
  let (pieces, holes) ← templateParts r tagged r.bound
  node .template begin (pieces ++ holes)

/-! ## Literals of objects and arrays -/

/-- A spread item. -/
def spreadRule (r : Rules) : Parser Tree := do
  let begin ← start
  expectPunct "..."
  let e ← r.assignment
  node .spread begin [e]

/-- Notes that the literal at `begin` ends in a comma. -/
def noteTrailing ( begin : Nat) (trailing : Bool) : Parser Unit :=
  if trailing then modify fun s => { s with trailingCommas := begin :: s.trailingCommas }
  else pure ()

/-- An array literal. -/
def arrayRule (r : Rules) : Parser Tree := do
  let begin ← start
  expectPunct "["
  let (items, trailing) ← bracketed (commaList "]" (do
    if ← atPunct "," then return .absent
    else if ← atPunct "..." then spreadRule r
    else r.assignment) r.bound true)
  expectPunct "]"
  noteTrailing begin trailing
  node .array begin items

/-- A property of an object literal that is neither spread nor accessor. -/
def plainProperty (r : Rules) ( begin : Nat) : Parser Tree := do
  let async ← atModifier "async" true
  if async then advanceKeyword
  let generator ← eatPunct "*"
  let c ← context
  let isName := match ← kind with
    | .word w => isReferenceWord c w
    | _ => false
  let (key, computed) ← propertyName r false
  if async || generator || (← atPunct "(") then
    let f ← methodFunction r async generator
    node (.property .init true false computed) begin [key, f]
  else if isName && !(← atPunct ":") then
    match key.label with
    | .word w =>
      if ← eatPunct "=" then
        let value ← r.assignment
        modify fun s => { s with defaults := (begin, value) :: s.defaults }
      node (.property .init false true false) begin [key, .node (.identifier w) key.span []]
    | _ => unexpected
  else
    expectPunct ":"
    let value ← r.assignment
    node (.property .init false false computed) begin [key, value]

/-- A property of an object literal. -/
def propertyRule (r : Rules) : Parser Tree := do
  let begin ← start
  if ← atPunct "..." then spreadRule r
  else if ← atModifier "get" false then
    advanceKeyword
    let (key, computed) ← propertyName r false
    let f ← methodFunction r false false
    checkGetter f
    node (.property .get false false computed) begin [key, f]
  else if ← atModifier "set" false then
    advanceKeyword
    let (key, computed) ← propertyName r false
    let f ← methodFunction r false false
    checkSetter f
    node (.property .set false false computed) begin [key, f]
  else plainProperty r begin

/-- An object literal. -/
def objectRule (r : Rules) : Parser Tree := do
  let begin ← start
  expectPunct "\x7b"
  let (items, trailing) ← bracketed (commaList "\x7d" (propertyRule r) r.bound true)
  expectPunct "\x7d"
  noteTrailing begin trailing
  node .object begin items

/-! ## Primary expressions -/

/-- Marks a function that stands directly in parentheses. -/
def markWrapped : Tree → Tree
  | .node (.function form async generator _ quiet) s cs =>
    .node (.function form async generator true quiet) s cs
  | .node (.arrow async concise _ quiet) s cs => .node (.arrow async concise true quiet) s cs
  | t => t

/-- An expression in parentheses. -/
def parenRule (r : Rules) : Parser Tree := do
  let begin ← start
  expectPunct "("
  let inner ← start
  let (items, trailing) ← bracketed (commaList ")" r.assignment r.bound true)
  if trailing then unexpected
  match items with
  | [] => unexpected
  | [e] =>
    expectPunct ")"
    node .paren begin [markWrapped e]
  | es =>
    let e ← node .sequence inner es
    expectPunct ")"
    node .paren begin [e]

/-- A regular expression: the slash that was read as an operator starts it. -/
def regexRule : Parser Tree := do
  let s ← get
  let begin := s.token.start
  let scan := scanRegex s.here
  set { s with
    next := scan.next
    token := { s.token with stop := scan.next.offset }
    flaws := if scan.flawed then begin :: s.flaws else s.flaws }
  advance
  node (.regex scan.pattern scan.flags) begin []

/-- A call with `import`, or `import.meta`, from the keyword on. -/
def importRule (r : Rules) : Parser Tree := do
  let begin ← start
  let t ← token
  advanceKeyword
  let arguments (phase : Option Phase) : Parser Tree := do
    expectPunct "("
    let source ← bracketed r.assignment
    let options ← if ← eatPunct "," then
        if ← atPunct ")" then pure []
        else do
          let o ← bracketed r.assignment
          let _ ← eatPunct ","
          pure [o]
      else pure []
    expectPunct ")"
    node (.importCall phase) begin (source :: options)
  if ← eatPunct "." then
    match ← kind with
    | .word "meta" =>
      let property ← anyWord
      node .metaProperty begin [.node (.word "import") ⟨t.start, t.stop⟩ [], property]
    | .word "source" =>
      advance
      arguments (some .source)
    | .word "defer" =>
      advance
      arguments (some .defer)
    | _ => unexpected
  else arguments none

/-- A variable. -/
def identifierRule : Parser Tree := do
  let t ← token
  match t.kind with
  | .word w =>
    if isReferenceWord (← context) w then
      advance
      return .node (.identifier w) ⟨t.start, t.stop⟩ []
    else unexpected
  | _ => unexpected

/-- `new` with its callee and arguments, or `new.target`. An optional call cannot be part of
it. -/
def newRule (r : Rules) : Parser Tree := do
  let begin ← start
  let t ← token
  advanceKeyword
  if ← eatPunct "." then
    if ← atWord "target" then
      let property ← anyWord
      node .metaProperty begin [.node (.word "new") ⟨t.start, t.stop⟩ [], property]
    else unexpected
  else
    let (callee, optional) ← r.member
    if ← atPunct "?." then unexpected
    let arguments ← if ← eatPunct "(" then
        let (items, _) ← bracketed (commaList ")" (do
          if ← atPunct "..." then spreadRule r else r.assignment) r.bound true)
        expectPunct ")"
        pure items
      else pure []
    match callee.label with
    | .importCall _ => flaw
    | _ => pure ()
    flawIf optional
    node (.new false) begin (callee :: arguments)

/-- A leaf made of the current token. -/
def leaf (label : Label) : Parser Tree := do
  let t ← token
  advance
  return .node label ⟨t.start, t.stop⟩ []

/-- A leaf made of the current keyword. -/
def keywordLeaf (label : Label) : Parser Tree := do
  let t ← token
  advanceKeyword
  return .node label ⟨t.start, t.stop⟩ []

/-- `super`, which needs a member step or a call behind it. -/
def superRule : Parser Tree := do
  let t ← keywordLeaf .super
  match ← kind with
  | .punct "." | .punct "[" | .punct "(" => return t
  | _ =>
    flaw
    return t

/-- A primary expression. -/
def primaryRule (r : Rules) : Parser Tree := do
  let begin ← start
  match ← kind with
  | .string v => leaf (.string v)
  | .number v => leaf (.number v)
  | .bigint v => leaf (.bigint v)
  | .template .. => templateRule r false
  | .punct "[" => arrayRule r
  | .punct "\x7b" => objectRule r
  | .punct "(" => parenRule r
  | .punct "/" | .punct "/=" => regexRule
  | .punct "@" =>
    let marks ← decorators r
    classFrom r .expression begin marks
  | .word w =>
    match w with
    | "function" => functionFrom r .expression .optional begin false
    | "class" => classFrom r .expression begin []
    | "this" => keywordLeaf .this
    | "null" => keywordLeaf .null
    | "true" => keywordLeaf (.boolean true)
    | "false" => keywordLeaf (.boolean false)
    | "new" => newRule r
    | "super" => superRule
    | "import" => importRule r
    | "async" =>
      let t ← following
      if t.kind = .word "function" && !t.newlineBefore then
        advanceKeyword
        functionFrom r .expression .optional begin true
      else identifierRule
    | _ => identifierRule
  | _ => unexpected

/-! ## Member steps and calls -/

/-- The name behind a dot. -/
def memberStep (object : Tree) ( begin : Nat) (optional : Bool) : Parser Tree := do
  match ← kind with
  | .privateName _ =>
    let p ← privateWord
    node (.privateMember optional) begin [object, p]
  | _ =>
    let p ← anyWord
    node (.member optional) begin [object, p]

/-- An index in brackets. -/
def indexStep (r : Rules) (object : Tree) ( begin : Nat) (optional : Bool) : Parser Tree := do
  expectPunct "["
  let i ← bracketed r.expression
  expectPunct "]"
  node (.index optional) begin [object, i]

/-- Member steps and templates behind an operand, and whether one of the steps so far was
optional. Optional calls are left for the caller. -/
def memberSteps (r : Rules) ( begin : Nat) : Nat → Tree → Bool → Parser (Tree × Bool)
  | 0, _, _ => throw .tooDeep
  | bound + 1, object, optional => do
    match ← kind with
    | .punct "." =>
      advance
      memberSteps r begin bound (← memberStep object begin false) optional
    | .punct "[" =>
      if (← context).inDecorator then return (object, optional)
      else memberSteps r begin bound (← indexStep r object begin false) optional
    | .punct "?." =>
      let t ← following
      match t.kind with
      | .punct "(" => return (object, optional)
      | .punct "[" =>
        advance
        memberSteps r begin bound (← indexStep r object begin true) true
      | .template .. =>
        advance
        flaw
        let q ← templateRule r true
        memberSteps r begin bound (← node .tagged begin [object, q]) true
      | _ =>
        advance
        memberSteps r begin bound (← memberStep object begin true) true
    | .template .. =>
      flawIf optional
      let q ← templateRule r true
      memberSteps r begin bound (← node .tagged begin [object, q]) optional
    | _ => return (object, optional)

/-- A member expression: a primary expression with its member steps. -/
def memberRule (r : Rules) : Parser (Tree × Bool) := do
  let begin ← start
  let e ← primaryRule r
  memberSteps r begin r.bound e false

/-- Calls and further member steps behind an operand. -/
def callSteps (r : Rules) ( begin : Nat) : Nat → Tree → Bool → Parser (Tree × Bool)
  | 0, _, _ => throw .tooDeep
  | bound + 1, callee, optional => do
    let (callee, optional) ← memberSteps r begin r.bound callee optional
    let question ← eatPunct "?."
    if ← eatPunct "(" then
      let (items, _) ← bracketed (commaList ")" (do
        if ← atPunct "..." then spreadRule r else r.assignment) r.bound true)
      expectPunct ")"
      let c ← node (.call question false) begin (callee :: items)
      callSteps r begin bound c (optional || question)
    else
      if question then unexpected
      return (callee, optional)

/-- An operand with its calls and member steps; optional steps make it one chain. -/
def operandRule (r : Rules) : Parser Tree := do
  let begin ← start
  let (e, optional) ← memberRule r
  let (e, optional) ← callSteps r begin r.bound e optional
  if optional then node .chain begin [e] else return e

/-! ## Prefix and postfix operators -/

/-- An operand with increments and decrements. -/
def updateRule (r : Rules) : Parser Tree := do
  let begin ← start
  match UpdateOp.ofToken? (← kind) with
  | some op =>
    advance
    let t ← toSimpleTarget (← r.unary)
    node (.update op true) begin [t]
  | none =>
    let e ← operandRule r
    match UpdateOp.ofToken? (← kind) with
    | some op =>
      if (← token).newlineBefore then return e
      else
        advance
        let t ← toSimpleTarget e
        node (.update op false) begin [t]
    | none => return e

/-- `await` starts an operator here: it is allowed, or what follows leaves no other reading. -/
def atAwait : Parser Bool := do
  if ← atWord "await" then
    if (← context).allowAwait then return true
    else return startsPlainOperand (← following)
  else return false

/-- Notes a hint on the call that an expression starts with. -/
def markPure : Tree → Tree
  | .node (.call optional _) s cs => .node (.call optional true) s cs
  | .node (.new _) s cs => .node (.new true) s cs
  | .node .paren s [t] => .node .paren s [markPure t]
  | .node (.binary op) s (left :: rest) => .node (.binary op) s (markPure left :: rest)
  | .node (.logical op) s (left :: rest) => .node (.logical op) s (markPure left :: rest)
  | .node .conditional s (test :: rest) => .node .conditional s (markPure test :: rest)
  | .node .chain s [.node (.call optional _) c cs] =>
    .node .chain s [.node (.call optional true) c cs]
  | t => t

/-- Reads an expression that the hint before it is noted on. -/
def hinted (p : Parser Tree) : Parser Tree := do
  let marked := (← token).hints.contains .pureCall
  let e ← p
  return if marked then markPure e else e

/-- An operand with its prefix operators. -/
def unaryRule (r : Rules) : Parser Tree := do
  let begin ← start
  match UnaryOp.ofToken? (← kind) with
  | some op =>
    advanceKeyword
    let e ← hinted r.unary
    node (.unary op) begin [e]
  | none =>
    if ← atAwait then
      flawIf (!(← context).allowAwait)
      advanceKeyword
      let e ← within (fun c => { c with allowAwait := true }) r.unary
      node .await begin [e]
    else updateRule r

/-! ## Binary operators -/

/-- An operand that may not stand before `**`. -/
def isPrefixed (t : Tree) : Bool :=
  match t.label with
  | .unary _ | .await => true
  | _ => false

/-- An operand of a binary operator, and whether it starts with a parenthesis. -/
structure Operand where
  tree : Tree
  opensParen : Bool

/-- A logical expression with `&&` or `||` mixes with no `??`, unless a parenthesis opens it. -/
def mixesCoalesce (left right : Operand) : Bool :=
  let clash (o : Operand) : Option Bool := match o.tree.label with
    | .logical op => some (op ≠ .coalesce && !o.opensParen)
    | _ => none
  match clash right with
  | some b => b
  | none => (clash left).getD false

/-- Operators behind a left operand that bind stronger than `level`. -/
def binarySteps (r : Rules) (level : Nat) ( begin : Nat) : Nat → Operand → Parser Tree
  | 0, _ => throw .tooDeep
  | bound + 1, operand => do
    let left := operand.tree
    match ← kind with
    | .word "as" | .word "satisfies" =>
      if (← token).newlineBefore || Level.compare ≤ level then return left else unexpected
    | k =>
      match InfixOp.ofToken? k with
      | none => return left
      | some op =>
        let stop := if op = .binary .exp then op.level < level else op.level ≤ level
        if stop then return left
        else if op = .binary .isIn && !(← context).allowIn then return left
        else
          advanceKeyword
          let opensParen ← atPunct "("
          let right ← r.binary op.level
          let label ← match op with
            | .logical l =>
              flawIf (l = .coalesce && mixesCoalesce operand ⟨right, opensParen⟩)
              pure (Label.logical l)
            | .binary b =>
              flawIf (b = .exp && isPrefixed left)
              pure (Label.binary b)
          let e ← node label begin [left, right]
          binarySteps r level begin bound ⟨e, operand.opensParen⟩

/-- An expression whose operators bind stronger than `level`. -/
def binaryRule (r : Rules) (level : Nat) : Parser Tree := do
  let begin ← start
  let c ← context
  match ← kind with
  | .privateName _ =>
    if !c.allowIn then unexpected
    let p ← privateWord
    unless ← atWord "in" do unexpected
    advanceKeyword
    let right ← r.binary Level.compare
    match right.label with
    | .privateIn => unexpected
    | _ => pure ()
    if Level.compare ≤ level then unexpected
    let e ← node .privateIn begin [p, right]
    binarySteps r level begin r.bound ⟨e, false⟩
  | _ =>
    let opensParen ← atPunct "("
    let e ← hinted (unaryRule r)
    binarySteps r level begin r.bound ⟨e, opensParen⟩

/-! ## Arrows -/

/-- What is known about parentheses before reading them: they hold arrow parameters, they may, or
they do not. -/
inductive ArrowGuess where
  | yes | maybe | no
deriving DecidableEq

/-- A guess about the parenthesis at the current token, from at most three tokens. -/
def guessArrow : Parser ArrowGuess := lookahead do
  expectPunct "("
  match ← kind with
  | .punct ")" =>
    advance
    match ← kind with
    | .punct "=>" | .punct ":" | .punct "\x7b" => return .yes
    | _ => return .no
  | .punct "[" | .punct "\x7b" => return .maybe
  | .punct "..." => return .yes
  | .word w =>
    if !isBindingWord w && w != "this" then return .no
    else
      advance
      match ← kind with
      | .punct ":" => return .yes
      | .punct "?" =>
        advance
        match ← kind with
        | .punct ":" | .punct "," | .punct "=" | .punct ")" => return .yes
        | _ => return .no
      | .punct "," | .punct "=" | .punct ")" => return .maybe
      | _ => return .no
  | _ => return .no

/-- The body of an arrow, behind `=>`. -/
def arrowBody (r : Rules) (async : Bool) : Parser (Tree × Bool) := do
  let bodyContext (c : Context) : Context :=
    { c with allowAwait := async, inGenerator := false, inDecorator := false }
  if ← atPunct "\x7b" then
    let body ← within bodyContext (functionBody r)
    return (body, false)
  else
    let e ← within bodyContext r.assignment
    return (.node .body e.span [.node .expressionStatement e.span [e]], true)

/-- The arrow and body behind parameters. -/
def arrowRest (r : Rules) ( begin : Nat) (async : Bool) (parameters : Tree) : Parser Tree := do
  flawIf (← token).newlineBefore
  expectPunct "=>"
  let (body, concise) ← arrowBody r async
  node (.arrow async concise false false) begin [parameters, body]

/-- Parenthesized arrow parameters, behind `async` if there. -/
def arrowParameters (r : Rules) (async : Bool) : Parser Tree :=
  within (fun c => { c with allowAwait := c.allowAwait || async, inDecorator := false })
    (parametersRule r)

/-- An arrow with parenthesized parameters, or `none` with the state unchanged. -/
def parenArrow? (r : Rules) : Parser (Option Tree) := do
  let begin ← start
  let async ← atWord "async"
  let guess ← if async then lookahead do
      advance
      let t ← token
      match t.kind with
      | .punct "(" => if t.newlineBefore then return ArrowGuess.no else guessArrow
      | _ => return ArrowGuess.no
    else if ← atPunct "(" then guessArrow else pure .no
  let whole : Parser Tree := do
    if async then advanceKeyword
    let ps ← arrowParameters r async
    arrowRest r begin async ps
  match guess with
  | .no => return none
  | .yes => return some (← whole)
  | .maybe =>
    let s ← get
    if s.notArrows.contains begin then return none
    -- Only the parameters decide; a fault behind the arrow is a fault.
    let attempt : Parser (Tree × Bool) := do
      if async then advanceKeyword
      let ps ← arrowParameters r async
      return (ps, ← atPunct "=>")
    match attempt s with
    | .ok (ps, true) s' =>
      set s'
      return some (← arrowRest r begin async ps)
    | .ok (_, false) s' =>
      set { s with notArrows := begin :: s'.notArrows }
      return none
    | .error _ s' =>
      set { s with notArrows := begin :: s'.notArrows }
      return none

/-- The single name before `=>` as parameters. -/
def nameParameters (name : String) (s : Span) : Tree :=
  .node .parameters s [.node .parameter s [.node (.binding name) s [], .absent]]

/-- `async name =>`, or `none` with the state unchanged. -/
def asyncNameArrow? (r : Rules) : Parser (Option Tree) := do
  if !(← atWord "async") then return none
  let begin ← start
  let fits ← lookahead do
    advance
    let t ← token
    match t.kind with
    | .word w =>
      if t.newlineBefore || !isReferenceWord (← context) w then return false
      advance
      atPunct "=>"
    | _ => return false
  if !fits then return none
  advanceKeyword
  let t ← token
  match t.kind with
  | .word w =>
    advance
    return some (← arrowRest r begin true (nameParameters w ⟨t.start, t.stop⟩))
  | _ => unexpected

/-! ## Assignment and comma -/

/-- `yield` starts an operator here. -/
def atYield : Parser Bool := do
  if ← atWord "yield" then
    if (← context).inGenerator then return true
    else return startsPlainOperand (← following)
  else return false

/-- A `yield` with its value. -/
def yieldRule (r : Rules) : Parser Tree := do
  let begin ← start
  flawIf (!(← context).inGenerator)
  advanceKeyword
  within (fun c => { c with inGenerator := true }) do
    if (← token).newlineBefore then node (.yield false) begin [.absent]
    else
      let delegate ← eatPunct "*"
      let bare ← match ← kind with
        | .endOfInput => pure true
        | .punct p => pure (p ∈ [";", "\x7d", ")", "]", ":", ","])
        | .word w => pure (w == "in")
        | _ => pure false
      if bare && !delegate then node (.yield false) begin [.absent]
      else
        let e ← r.assignment
        node (.yield delegate) begin [e]

/-- The left side of an assignment as a target. Patterns are for plain and logical assignments. -/
def assignmentTarget (op : AssignOp) (left : Tree) : Parser Tree :=
  match op with
  | .plain | .logical _ => toTarget left
  | .binary _ => toSimpleTarget left

/-- An arrow, an assignment, a conditional, or what binds stronger. -/
def assignmentOrArrow (r : Rules) : Parser Tree := do
  match ← asyncNameArrow? r with
  | some t => return t
  | none =>
  match ← parenArrow? r with
  | some t => return t
  | none =>
    let begin ← start
    let left ← binaryRule r Level.comma
    match left, ← kind with
    | .node (.identifier n) s _, .punct "=>" => arrowRest r begin false (nameParameters n s)
    | _, k =>
      match AssignOp.ofToken? k with
      | some op =>
        let target ← assignmentTarget op left
        advance
        let value ← r.assignment
        node (.assign op) begin [target, value]
      | none =>
        if ← eatPunct "?" then
          let yes ← within (fun c => { c with allowIn := true }) r.assignment
          expectPunct ":"
          let no ← r.assignment
          node .conditional begin [left, yes, no]
        else return left

/-- Notes a hint on a function. -/
def markQuiet : Tree → Tree
  | .node (.function form async generator wrapped _) s cs =>
    .node (.function form async generator wrapped true) s cs
  | .node (.arrow async concise wrapped _) s cs => .node (.arrow async concise wrapped true) s cs
  | t => t

/-- An expression without commas outside brackets, and the hint before it. -/
def assignmentRule (r : Rules) : Parser Tree := do
  if ← atYield then yieldRule r
  else
    let hinted := (← token).hints.contains .quietFunction
    let e ← assignmentOrArrow r
    return if hinted then markQuiet e else e

/-- Further parts of a comma expression. -/
def commaSteps (r : Rules) : Nat → Parser (List Tree)
  | 0 => throw .tooDeep
  | bound + 1 => do
    if ← eatPunct "," then
      let e ← assignmentRule r
      return e :: (← commaSteps r bound)
    else return []

/-- An expression. -/
def expressionRule (r : Rules) : Parser Tree := do
  let begin ← start
  within (fun c => { c with inDecorator := false }) do
    let e ← assignmentRule r
    if ← atPunct "," then
      let es ← commaSteps r r.bound
      node .sequence begin (e :: es)
    else return e

end Parser

end Reactive.Script
