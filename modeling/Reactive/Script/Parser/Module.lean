/-
  Imports and exports.
-/
import Reactive.Script.Names
import Reactive.Script.Parser.Expression

namespace Reactive.Script.Parser

/-! ## Shared parts -/

/-- The text holds a surrogate without its partner. -/
def hasLoneSurrogate (v : List Nat) : Bool := v.any fun n => isHighSurrogate n || isLowSurrogate n

/-- A name in an import or export list: a word, or a string, which has to be Unicode text. -/
def moduleName : Parser Tree := do
  match ← kind with
  | .string v =>
    flawIf (hasLoneSurrogate v)
    stringLiteral
  | _ => anyWord

/-- One attribute of an import. -/
def importAttribute : Parser Tree := do
  let begin ← start
  let key ← match ← kind with
    | .string _ => stringLiteral
    | _ => anyWord
  expectPunct ":"
  let value ← stringLiteral
  node .importAttribute begin [key, value]

/-- The key of an attribute as text, whichever way it is written. -/
def attributeKey (t : Tree) : List Nat :=
  match t with
  | .node .importAttribute _ (.node (.word w) _ _ :: _) => w.toList.map Char.toNat
  | .node .importAttribute _ (.node (.string v) _ _ :: _) => v
  | _ => []

/-- Attributes behind a source, if there: `with { key: "value" }`, or the same with `assert` on
the line of the source. A key given twice is flawed. -/
def importAttributes (r : Rules) : Parser (List Tree) := do
  let begin ← start
  let legacy := (← atWord "assert") && !(← token).newlineBefore
  if legacy || (← atWord "with") then
    advanceKeyword
    expectPunct "\x7b"
    let (items, _) ← commaList "\x7d" importAttribute r.bound true
    expectPunct "\x7d"
    let keys := items.map attributeKey
    flawIf (keys.eraseDups.length != keys.length)
    return [← node (.importAttributes legacy) begin items]
  else return []

/-! ## Imports -/

/-- One name of an import list. -/
def importName : Parser Tree := do
  let begin ← start
  let t ← token
  let imported ← moduleName
  if ← eatWord "as" then
    let name ← bindingName
    node .importName begin [imported, name]
  else
    match t.kind with
    | .word w =>
      if isBindingWord w then
        checkName w
        node .importName begin [imported, .node (.binding w) imported.span []]
      else unexpected
    | _ => unexpected

/-- The names in braces. -/
def importNames (r : Rules) : Parser (List Tree) := do
  expectPunct "\x7b"
  let (items, _) ← commaList "\x7d" importName r.bound true
  expectPunct "\x7d"
  return items

/-- `* as name`. -/
def importNamespace : Parser Tree := do
  let begin ← start
  expectPunct "*"
  expectWord "as"
  let name ← bindingName
  node .importNamespace begin [name]

/-- What an import takes, up to the word `from`. -/
def importClause (r : Rules) : Parser (List Tree) := do
  match ← kind with
  | .punct "\x7b" => importNames r
  | .punct "*" => return [← importNamespace]
  | _ =>
    let begin ← start
    let name ← bindingName
    let first ← node .importDefault begin [name]
    if ← eatPunct "," then
      match ← kind with
      | .punct "\x7b" => return first :: (← importNames r)
      | .punct "*" => return [first, ← importNamespace]
      | _ => unexpected
    else return [first]

/-- The phase mark that stands here in place of a default name: `defer` before a star, or `source`
before another name, where `from` is such a name only if a second `from` follows. -/
def phase? : Parser (Option Phase) := do
  match ← kind with
  | .word "defer" => return if (← following).kind = .punct "*" then some .defer else none
  | .word "source" => lookahead do
    advance
    match ← kind with
    | .word "from" =>
      advance
      return if ← atWord "from" then some .source else none
    | .word _ => return some .source
    | _ => return none
  | _ => return none

/-- What an import of a phase takes: a source phase gives one default name. -/
def phaseClause (r : Rules) (phase : Option Phase) : Parser (List Tree) := do
  match phase with
  | some .source =>
    let begin ← start
    let name ← bindingName
    return [← node .importDefault begin [name]]
  | _ => importClause r

/-- An import declaration, from the keyword on. -/
def importStatement (r : Rules) : Parser Tree := do
  let begin ← start
  advanceKeyword
  match ← kind with
  | .string _ =>
    let source ← stringLiteral
    let attributes ← importAttributes r
    endStatement
    node (.importStatement none true) begin (source :: attributes)
  | _ =>
    let phase ← phase?
    if phase.isSome then advance
    let names ← phaseClause r phase
    expectWord "from"
    let source ← stringLiteral
    let attributes ← importAttributes r
    endStatement
    node (.importStatement phase false) begin (names ++ source :: attributes)

/-! ## Exports -/

/-- One name of an export list. -/
def exportName : Parser Tree := do
  let begin ← start
  let name ← moduleName
  if ← eatWord "as" then
    let exported ← moduleName
    node .exportName begin [name, exported]
  else node .exportName begin [name, name]

/-- Words that cannot name a variable of a module. -/
def isModuleReserved (w : String) : Bool :=
  reservedWords.contains w || w ∈ ["await", "yield", "implements", "interface", "package",
    "private", "protected", "public", "static"]

/-- A local name of an export list without source is a variable: strings are faults, and words that
cannot name one are flawed. -/
def localExport : Tree → Parser Tree
  | .node .exportName s [.node (.word w) n _, exported] => do
    flawIf (isModuleReserved w)
    return .node .exportName s [.node (.identifier w) n [], exported]
  | .node _ s _ => throw (.unexpected s.start)

/-- The current token is a literal value. -/
def atLiteral : Parser Bool := do
  match ← kind with
  | .string _ | .number _ | .bigint _ => return true
  | .word w => return w ∈ ["null", "true", "false"]
  | _ => return false

/-- `export { … }`, behind the keyword. The word `from` counts only before a literal; otherwise it
is passed over. -/
def exportNames (r : Rules) ( begin : Nat) : Parser Tree := do
  expectPunct "\x7b"
  let (items, _) ← commaList "\x7d" exportName r.bound true
  expectPunct "\x7d"
  if (← eatWord "from") && (← atLiteral) then
    let source ← stringLiteral
    let attributes ← importAttributes r
    endStatement
    node (.exportNames true) begin (items ++ source :: attributes)
  else
    let items ← items.mapM localExport
    endStatement
    node (.exportNames false) begin items

/-- `export * …`, behind the keyword. -/
def exportAll (r : Rules) ( begin : Nat) : Parser Tree := do
  expectPunct "*"
  let exported ← if ← eatWord "as" then moduleName else pure .absent
  expectWord "from"
  let source ← stringLiteral
  let attributes ← importAttributes r
  endStatement
  node .exportAll begin (exported :: source :: attributes)

/-- A class being exported, with the decorators before `export`. Further ones behind it are
flawed. -/
def exportedClass (r : Rules) (form : ClassForm) (decorated : List Tree) : Parser Tree := do
  let begin ← start
  let more ← decorators r
  flawIf (!decorated.isEmpty && !more.isEmpty)
  classFrom r form begin (decorated ++ more)

/-- `async function` on one line. -/
def atAsyncFunction : Parser Bool := do
  if ← atWord "async" then
    let t ← following
    return t.kind = .word "function" && !t.newlineBefore
  else return false

/-- What a default export has as its value, and whether it is a function or class that needs no
semicolon. -/
def defaultValue (r : Rules) (decorated : List Tree) : Parser (Tree × Bool) := do
  let begin ← start
  match ← kind with
  | .punct "@" | .word "class" => return (← exportedClass r .exported decorated, true)
  | .word "function" => return (← functionFrom r .exported .optional begin false, true)
  | _ =>
    if ← atAsyncFunction then
      advanceKeyword
      return (← functionFrom r .exported .optional begin true, true)
    else return (← assignmentRule r, false)

/-- `export default …`, behind both keywords. -/
def exportDefault (r : Rules) ( begin : Nat) (decorated : List Tree) : Parser Tree := do
  let hinted := (← token).hints.contains .quietFunction
  let (value, whole) ← defaultValue r decorated
  unless whole do endStatement
  node .exportDefault begin [if whole && hinted then markQuiet value else value]

/-- An export, from the keyword on, given the decorators before it and the reader of
declarations. -/
def exportStatement (r : Rules) (decorated : List Tree) (declaration : Parser Tree) :
    Parser Tree := do
  let begin ← start
  advanceKeyword
  match ← kind with
  | .punct "\x7b" => exportNames r begin
  | .punct "*" => exportAll r begin
  | .word "default" =>
    advanceKeyword
    exportDefault r begin decorated
  | .punct "@" | .word "class" =>
    let c ← exportedClass r .declaration decorated
    node .exportDeclaration begin [c]
  | .word w =>
    if w ∈ ["var", "let", "const", "function", "async"] then
      let d ← declaration
      match d.label with
      | .variables _ | .function .. => node .exportDeclaration begin [d]
      | _ => throw (.unexpected d.span.start)
    else unexpected
  | _ => unexpected

/-! ## Exported names -/

/-- The text of a module name. -/
def moduleNameText (t : Tree) : String :=
  match t.label with
  | .word w => w
  | .identifier w => w
  | .string v => String.ofList (v.map Char.ofNat)
  | _ => ""

/-- The names that a declared pattern introduces. -/
def patternWords (t : Tree) : List String := t.introduced.map (·.1)

/-- The names that a statement exports. -/
def exportedNames (t : Tree) : List String :=
  match t with
  | .node .exportDefault _ _ => ["default"]
  | .node (.exportNames _) _ items => items.filterMap fun i => match i with
    | .node .exportName _ [_, e] => some (moduleNameText e)
    | _ => none
  | .node .exportAll _ (e :: _) => if e.isAbsent then [] else [moduleNameText e]
  | .node .exportDeclaration _ [d] => match d with
    | .node (.variables _) _ ds => ds.flatMap fun d => match d with
      | .node .declarator _ (p :: _) => patternWords p
      | _ => []
    | .node (.function ..) _ (name :: _) => patternWords name
    | .node (.classNode _) _ parts => parts.flatMap fun p => match p.label with
      | .binding n => [n]
      | _ => []
    | _ => []
  | _ => []

end Reactive.Script.Parser
