/-
  Binding patterns, parameters and function bodies.
-/
import Reactive.Script.Parser.State

namespace Reactive.Script.Parser

/-! ## Property names -/

/-- The name of a property and whether it is computed. Private names are for class members. -/
def propertyName (r : Rules) (allowPrivate : Bool) : Parser (Tree × Bool) := do
  let t ← token
  let leaf (label : Label) : Parser (Tree × Bool) := do
    advance
    return (.node label ⟨t.start, t.stop⟩ [], false)
  match t.kind with
  | .word w => leaf (.word w)
  | .string v => leaf (.string v)
  | .number v => leaf (.number v)
  | .bigint v => leaf (.bigint v)
  | .privateName w => if allowPrivate then leaf (.privateWord w) else unexpected
  | .punct "[" =>
    advance
    let key ← within (fun c => { c with allowIn := true }) r.assignment
    expectPunct "]"
    return (key, true)
  | _ => unexpected

/-! ## Patterns -/

/-- A default after a pattern, if there is one. -/
def withDefault (r : Rules) ( begin : Nat) (pattern : Tree) : Parser Tree := do
  if ← eatPunct "=" then
    let value ← within (fun c => { c with allowIn := true }) r.assignment
    node .patternDefault begin [pattern, value]
  else return pattern

/-- A pattern with an optional default. -/
def defaultedPattern (r : Rules) : Parser Tree := do
  let begin ← start
  withDefault r begin (← r.pattern)

/-- Items up to the closing punctuator with at most one rest item, which has to be the last and
without a comma behind it; elsewhere it is flawed. -/
def restList (close : String) (item rest : Parser Tree) :
    Nat → Bool → Bool → Parser (List Tree)
  | 0, _, _ => throw .tooDeep
  | bound + 1, first, afterRest => do
    if ← atPunct close then return []
    unless first do
      expectPunct ","
      if ← atPunct close then
        flawIf afterRest
        return []
    flawIf afterRest
    if ← atPunct "..." then
      let t ← rest
      return t :: (← restList close item rest bound false true)
    else
      let t ← item
      return t :: (← restList close item rest bound false afterRest)

/-- A rest item of a pattern. -/
def bindingRest (r : Rules) (namesOnly : Bool) : Parser Tree := do
  let begin ← start
  expectPunct "..."
  let target ← r.pattern
  if namesOnly then
    match target.label with
    | .binding _ => pure ()
    | _ => flaw
  node .bindingRest begin [target]

/-- An element of an array pattern; a comma leaves it out. -/
def patternElement (r : Rules) : Parser Tree := do
  if ← atPunct "," then return .absent else defaultedPattern r

/-- A property of an object pattern. -/
def patternProperty (r : Rules) : Parser Tree := do
  let begin ← start
  let t ← token
  let isName := match t.kind with
    | .word w => isBindingWord w
    | _ => false
  let (key, computed) ← propertyName r false
  if isName && !(← atPunct ":") then
    match key.label with
    | .word w =>
      let value ← withDefault r begin (.node (.binding w) key.span [])
      node (.patternProperty true false) begin [key, value]
    | _ => unexpected
  else
    expectPunct ":"
    let value ← defaultedPattern r
    node (.patternProperty false computed) begin [key, value]

/-- A binding pattern. -/
def patternRule (r : Rules) : Parser Tree := do
  let begin ← start
  match ← kind with
  | .punct "[" =>
    advance
    let items ← restList "]" (patternElement r) (bindingRest r false) r.bound true false
    expectPunct "]"
    node .arrayPattern begin items
  | .punct "\x7b" =>
    advance
    let items ← restList "\x7d" (patternProperty r) (bindingRest r true) r.bound true false
    expectPunct "\x7d"
    node .objectPattern begin items
  | _ => bindingName

/-! ## Decorators -/

/-- A decorator with an optional step is flawed, unless the step is in parentheses. -/
def checkDecorator (e : Tree) : Parser Unit :=
  match e.label with
  | .chain => flaw
  | _ => pure ()

/-- The decorators at this place. -/
def decorators (r : Rules) : Parser (List Tree) :=
  itemsUntil (return !(← atPunct "@")) (do
    let begin ← start
    advance
    let e ← within (fun c => { c with inDecorator := true }) r.operand
    checkDecorator e
    node .decorator begin [e]) r.bound

/-! ## Parameters -/

/-- A parameter with an optional default. Decorators on it are flawed. -/
def parameter (r : Rules) : Parser Tree := do
  let begin ← start
  let marks ← decorators r
  flawIf (!marks.isEmpty)
  let pattern ← r.pattern
  let value ← if ← eatPunct "=" then
      within (fun c => { c with allowIn := true }) r.assignment
    else pure .absent
  node .parameter begin (marks ++ [pattern, value])

/-- A rest parameter. -/
def restParameter (r : Rules) : Parser Tree := do
  let begin ← start
  expectPunct "..."
  let pattern ← r.pattern
  node .restParameter begin [pattern]

/-- Parameters in parentheses. -/
def parametersRule (r : Rules) : Parser Tree := do
  let begin ← start
  expectPunct "("
  let items ← restList ")" (parameter r) (restParameter r) r.bound true false
  expectPunct ")"
  node .parameters begin items

/-! ## Bodies -/

/-- The text between the quotes of a string literal at the start of `k`. -/
def rawString (k : Cursor) : String :=
  match k.rest with
  | q :: cs => match stringBody q cs 0 with
    | some (body, _) => String.ofList body
    | none => ""
  | [] => ""

/-- Statements until `stop` holds. Leading statements that are a string alone are directives. -/
def statementsUntil (r : Rules) (stop : Parser Bool) : Nat → Bool → Parser (List Tree)
  | 0, _ => throw .tooDeep
  | bound + 1, prologue => do
    if ← stop then return []
    let here := (← get).here
    let t ← r.statement .list
    match prologue, t with
    | true, .node .expressionStatement s [.node (.string _) _ _] =>
      let d := Tree.node (.directive (rawString here)) s []
      return d :: (← statementsUntil r stop bound true)
    | _, _ => return t :: (← statementsUntil r stop bound false)

/-- The body of a function, in braces. -/
def functionBody (r : Rules) : Parser Tree := do
  let begin ← start
  expectPunct "\x7b"
  let items ← within (fun c => { c with allowReturn := true, allowIn := true })
    (statementsUntil r (return (← atPunct "\x7d") || (← atEnd)) r.bound true)
  expectPunct "\x7d"
  node .body begin items

/-- The parameters and body of a function. A function that ends like a statement where its body
should stand is flawed and has none. -/
def functionRest (r : Rules) (async generator : Bool) : Parser (Tree × Tree) :=
  within (fun c => { c with
      allowIn := true, allowAwait := async, inGenerator := generator, inDecorator := false }) do
    let ps ← parametersRule r
    if ← atPunct "\x7b" then
      let body ← functionBody r
      return (ps, body)
    else
      flaw
      endStatement
      return (ps, .absent)

/-- A method: the function behind a member name. Its span starts at the parameters. -/
def methodFunction (r : Rules) (async generator : Bool) : Parser Tree := do
  let begin ← start
  let (ps, body) ← functionRest r async generator
  node (.function .method async generator false false) begin [.absent, ps, body]

/-- How the name of a function is treated: `required` by declarations. -/
inductive NameRule where
  | required | optional
deriving DecidableEq

/-- A function from the keyword `function` on; `begin` is the start of the node. -/
def functionFrom (r : Rules) (form : FunctionForm) (rule : NameRule) ( begin : Nat)
    (async : Bool) : Parser Tree := do
  expectWord "function"
  let generator ← eatPunct "*"
  let name ← match ← kind with
    | .word w =>
      if isBindingWord w then
        if form = .expression then
          within (fun c => { c with allowAwait := async, inGenerator := generator }) bindingName
        else bindingName
      else unexpected
    | _ =>
      flawIf (rule = .required)
      pure .absent
  let (ps, body) ← functionRest r async generator
  node (.function form async generator false false) begin [name, ps, body]

/-- The parameter is the rest of the arguments. -/
def isRestParameter (t : Tree) : Bool :=
  match t.label with
  | .restParameter => true
  | _ => false

/-- The number of parameters of a method, the rest parameter aside. -/
def parameterCount (f : Tree) : Nat :=
  match f with
  | .node (.function ..) _ [_, .node .parameters _ ps, _] =>
    (ps.filter fun p => !isRestParameter p).length
  | _ => 0

/-- A getter has no parameter; a rest parameter passes. -/
def checkGetter (f : Tree) : Parser Unit := flawIf (parameterCount f != 0)

/-- A setter has one parameter, which is no rest parameter. -/
def checkSetter (f : Tree) : Parser Unit :=
  match f with
  | .node (.function ..) _ [_, .node .parameters _ [p], _] => flawIf (isRestParameter p)
  | _ => flaw

/-! ## Modifiers of members -/

/-- A member name can start with this token. -/
def startsName (t : Token) : Bool :=
  match t.kind with
  | .word _ | .string _ | .number _ | .bigint _ | .privateName _ => true
  | .punct p => p == "[" || p == "*" || p == "\x7b" || p == "..."
  | _ => false

/-- The current word is a modifier: a member name follows it, on the same line if `sameLine`. -/
def atModifier (w : String) (sameLine : Bool) : Parser Bool := do
  if ← atWord w then
    let t ← following
    return startsName t && !(sameLine && t.newlineBefore)
  else return false

end Reactive.Script.Parser
