/-
  The reading state of the script parser.

  The parser looks at one token at a time. A fault ends the reading; a flaw is noted and
  reading goes on, so that a flawed script still has a tree. Reading never runs on a
  partial function: every rule gets the rules for what is nested in it as an argument,
  and `Rules` are built up to a depth that the length of the text bounds.
-/
import Reactive.Script.Lexer

namespace Reactive.Script

/-- Why reading stopped: at a byte offset where no rule applies, or because the text is nested
deeper than it is long, which no text is. -/
inductive Fault where
  | unexpected (offset : Nat)
  | tooDeep
deriving Repr, Inhabited, DecidableEq

/-- A sentence about a fault. -/
def Fault.message : Fault → String
  | .unexpected offset => "unexpected token at offset " ++ toString offset
  | .tooDeep => "nesting too deep"

/-- What the place in the program allows. -/
structure Context where
  /-- `in` is an operator here, not the mark of a loop head. -/
  allowIn : Bool
  /-- Inside a generator. -/
  inGenerator : Bool
  /-- `await` is an operator here. -/
  allowAwait : Bool
  /-- Inside a function body. -/
  allowReturn : Bool
  /-- Inside a decorator, where a bracket starts the next member. -/
  inDecorator : Bool
deriving Repr, Inhabited

/-- The top of a module. -/
def Context.module : Context := ⟨true, false, true, false, false⟩

namespace Parser

/-- The reading state. -/
structure State where
  token : Token
  /-- The text from the start of the token. -/
  here : Cursor
  /-- The text behind the token. -/
  next : Cursor
  /-- The end of the token before. -/
  previousStop : Nat
  trivia : Trivia
  /-- Offsets of the flaws noted so far, latest first. -/
  flaws : List Nat
  /-- Shorthand properties with a default, by their start: sound only inside a target. -/
  defaults : List (Nat × Tree)
  /-- Starts of literals that end in a comma. -/
  trailingCommas : List Nat
  /-- Starts of parentheses known not to hold arrow parameters. -/
  notArrows : List Nat
  context : Context
deriving Inhabited

end Parser

/-- Readers of a `α`. -/
abbrev Parser (α : Type) := EStateM Fault Parser.State α

namespace Parser

/-! ## Tokens -/

/-- The current token. -/
def token : Parser Token := return (← get).token

/-- What the current token is. -/
def kind : Parser TokenKind := return (← get).token.kind

/-- Stops reading at the current token. -/
def unexpected {α : Type} : Parser α := do
  throw (.unexpected (← token).start)

/-- Notes a flaw at the current token. -/
def flaw : Parser Unit :=
  modify fun s => { s with flaws := s.token.start :: s.flaws }

/-- Notes a flaw if there is one. -/
def flawIf (b : Bool) : Parser Unit := if b then flaw else pure ()

/-- Takes the token that the lexer read. -/
def install (r : Read) (previousStop : Nat) : Parser Unit :=
  modify fun s => { s with
    token := r.token
    here := r.here
    next := r.next
    previousStop := previousStop
    trivia := r.trivia
    flaws := if r.flawed then r.token.start :: s.flaws else s.flaws }

/-- Goes on to the next token. -/
def advance : Parser Unit := do
  let s ← get
  install (nextToken s.next s.trivia) s.token.stop

/-- The current token is this punctuator. -/
def atPunct (p : String) : Parser Bool := do
  match ← kind with
  | .punct q => return p == q
  | _ => return false

/-- The current token is this word. -/
def atWord (w : String) : Parser Bool := do
  match ← kind with
  | .word v => return w == v
  | _ => return false

/-- The input is used up. -/
def atEnd : Parser Bool := do
  match ← kind with
  | .endOfInput => return true
  | _ => return false

/-- Skips this punctuator if it is the current token; tells whether it was. -/
def eatPunct (p : String) : Parser Bool := do
  if ← atPunct p then
    advance
    return true
  else return false

/-- Skips the current token as a keyword, which is flawed if written with escapes. -/
def advanceKeyword : Parser Unit := do
  flawIf (← token).escaped
  advance

/-- Skips this keyword if it is the current token; tells whether it was. -/
def eatWord (w : String) : Parser Bool := do
  if ← atWord w then
    advanceKeyword
    return true
  else return false

/-- Skips this punctuator, which must be there. -/
def expectPunct (p : String) : Parser Unit := do
  unless ← eatPunct p do unexpected

/-- Skips this keyword, which must be there. -/
def expectWord (w : String) : Parser Unit := do
  unless ← eatWord w do unexpected

/-- Runs a reader and puts the state back. -/
def lookahead {α : Type} (p : Parser α) : Parser α := do
  let s ← get
  let a ← p
  set s
  return a

/-- The token after the current one. -/
def following : Parser Token := lookahead do
  advance
  token

/-- Runs a reader in a changed context. -/
def within {α : Type} (change : Context → Context) (p : Parser α) : Parser α := do
  let outer := (← get).context
  modify fun s => { s with context := change outer }
  let a ← p
  modify fun s => { s with context := outer }
  return a

/-- The current context. -/
def context : Parser Context := return (← get).context

/-! ## Spans and nodes -/

/-- The start of the current token. -/
def start : Parser Nat := return (← token).start

/-- The span from `from` to the end of the token before the current one. -/
def spanFrom ( begin : Nat) : Parser Span := return ⟨begin, (← get).previousStop⟩

/-- A node that ends before the current token. -/
def node (label : Label) ( begin : Nat) (children : List Tree) : Parser Tree := do
  return .node label (← spanFrom begin) children

/-! ## Statement ends -/

/-- A statement may end here without a semicolon. -/
def canEnd : Parser Bool := do
  let t ← token
  match t.kind with
  | .endOfInput => return true
  | .punct p => return p == "\x7d" || p == ";" || t.newlineBefore
  | _ => return t.newlineBefore

/-- The end of a statement: a semicolon, or a place where it may be left out. -/
def endStatement : Parser Unit := do
  if ← eatPunct ";" then return
  unless ← canEnd do unexpected

/-! ## Repetition -/

/-- Items until `stop` holds, at most `bound` of them. -/
def itemsUntil {α : Type} (stop : Parser Bool) (item : Parser α) : Nat → Parser (List α)
  | 0 => throw .tooDeep
  | bound + 1 => do
    if ← stop then return []
    let a ← item
    return a :: (← itemsUntil stop item bound)

/-- The rest of a list with commas behind its first items, up to the closing punctuator, and
whether a comma came last. -/
def commaList {α : Type} (close : String) (item : Parser α) :
    Nat → Bool → Parser (List α × Bool)
  | 0, _ => throw .tooDeep
  | bound + 1, first => do
    if ← atPunct close then return ([], false)
    unless first do
      expectPunct ","
    if !first && (← atPunct close) then return ([], true)
    let a ← item
    let (as, trailing) ← commaList close item bound false
    return (a :: as, trailing)

/-! ## Words -/

/-- Words that never are names. -/
def reservedWords : List String := [
  "break", "case", "catch", "class", "const", "continue", "debugger", "default", "delete", "do",
  "else", "enum", "export", "extends", "false", "finally", "for", "function", "if", "import", "in",
  "instanceof", "new", "null", "return", "super", "switch", "this", "throw", "true", "try",
  "typeof", "var", "void", "while", "with"]

/-- The word can name a variable, leaving `await` and `yield` aside. -/
def isIdentifierWord (w : String) : Bool :=
  !(reservedWords.contains w) && w != "await" && w != "yield"

/-- The word can be declared; where `await` or `yield` is an operator that is flawed. -/
def isBindingWord (w : String) : Bool := !(reservedWords.contains w)

/-- The word can be used as a variable at this place. -/
def isReferenceWord (c : Context) (w : String) : Bool :=
  isIdentifierWord w || (w == "yield" && !c.inGenerator) || (w == "await" && !c.allowAwait)

/-- A name where `await` or `yield` is an operator is flawed. -/
def checkName (w : String) : Parser Unit := do
  let c ← context
  flawIf ((w == "await" && c.allowAwait) || (w == "yield" && c.inGenerator))

/-- A name being declared. -/
def bindingName : Parser Tree := do
  let t ← token
  match t.kind with
  | .word w =>
    if isBindingWord w then
      checkName w
      advance
      return .node (.binding w) ⟨t.start, t.stop⟩ []
    else unexpected
  | _ => unexpected

/-- Any word as a name that is no variable. -/
def anyWord : Parser Tree := do
  let t ← token
  match t.kind with
  | .word w =>
    advance
    return .node (.word w) ⟨t.start, t.stop⟩ []
  | _ => unexpected

/-- A private name. -/
def privateWord : Parser Tree := do
  let t ← token
  match t.kind with
  | .privateName w =>
    advance
    return .node (.privateWord w) ⟨t.start, t.stop⟩ []
  | _ => unexpected

/-- A label name. -/
def labelName : Parser Tree := do
  let t ← token
  match t.kind with
  | .word w =>
    if isReferenceWord (← context) w then
      advance
      return .node (.word w) ⟨t.start, t.stop⟩ []
    else unexpected
  | _ => unexpected

/-- A string literal. -/
def stringLiteral : Parser Tree := do
  let t ← token
  match t.kind with
  | .string v =>
    advance
    return .node (.string v) ⟨t.start, t.stop⟩ []
  | _ => unexpected

/-! ## Nested rules -/

/-- Where a statement stands. -/
inductive Place where
  | list
  /-- The body of a statement other than a block. -/
  | single
deriving DecidableEq, Repr, Inhabited

/-- The rules for what is nested in the text at hand. -/
structure Rules where
  /-- An upper bound for the length of any list. -/
  bound : Nat
  /-- An expression, with commas. -/
  expression : Parser Tree
  /-- An expression without commas outside parentheses. -/
  assignment : Parser Tree
  /-- An expression whose operators bind stronger than a level. -/
  binary : Nat → Parser Tree
  /-- An operand with its prefix operators. -/
  unary : Parser Tree
  /-- An operand with its calls and member steps. -/
  operand : Parser Tree
  /-- A member expression or `new`, without call arguments, and whether it has an optional step. -/
  member : Parser (Tree × Bool)
  /-- A binding pattern. -/
  pattern : Parser Tree
  /-- A statement. -/
  statement : Place → Parser Tree

end Parser

end Reactive.Script
