/-
  Classes.
-/
import Reactive.Script.Parser.Pattern

namespace Reactive.Script.Parser

/-- The text of a member name that is a plain word or a string. -/
def memberName? (key : Tree) (computed : Bool) : Option String :=
  if computed then none
  else match key.label with
    | .word w => some w
    | .string v => some (String.ofList (v.map Char.ofNat))
    | _ => none

/-- No member is called `#constructor`. -/
def checkPrivateName (key : Tree) : Parser Unit :=
  match key.label with
  | .privateWord "constructor" => flaw
  | _ => pure ()

/-- A static block, behind the word `static`. -/
def staticBlock (r : Rules) ( begin : Nat) : Parser Tree := do
  expectPunct "\x7b"
  let items ← within (fun c => { c with
      allowAwait := true, inGenerator := false, allowReturn := false, allowIn := true })
    (itemsUntil (return (← atPunct "\x7d") || (← atEnd)) (r.statement .list) r.bound)
  expectPunct "\x7d"
  node .staticBlock begin items

/-! ## Words before a name -/

/-- A word that marks a member. -/
inductive ModifierWord where
  | static | async | accessor | unfinished | overrides | fixed | ambient
  | access (who : Access)
deriving DecidableEq

/-- The mark that a word can be. -/
def ModifierWord.ofWord? : String → Option ModifierWord
  | "static" => some .static
  | "async" => some .async
  | "accessor" => some .accessor
  | "abstract" => some .unfinished
  | "override" => some .overrides
  | "readonly" => some .fixed
  | "declare" => some .ambient
  | "public" => some (.access .anyone)
  | "protected" => some (.access .heirs)
  | "private" => some (.access .owner)
  | _ => none

/-- What the words before the name of a member say. -/
structure MemberHead where
  marks : Modifiers := {}
  async : Bool := false
  accessor : Bool := false

namespace MemberHead

/-- Takes one more word. -/
def add (h : MemberHead) : ModifierWord → MemberHead
  | .static => { h with marks := { h.marks with static := true } }
  | .async => { h with async := true }
  | .accessor => { h with accessor := true }
  | .unfinished => { h with marks := { h.marks with unfinished := true } }
  | .overrides => { h with marks := { h.marks with overrides := true } }
  | .fixed => { h with marks := { h.marks with fixed := true } }
  | .ambient => { h with marks := { h.marks with ambient := true } }
  | .access who => { h with marks := { h.marks with access := some who } }

/-- A word that has to stand before everything but who may use the member was read. -/
def pastOverride (h : MemberHead) : Bool :=
  h.marks.overrides || h.marks.fixed || h.accessor || h.async

/-- The word comes twice or too late: who may use the member is said first, then `static`, then
that it replaces another one. -/
def refuses (h : MemberHead) : ModifierWord → Bool
  | .access _ => h.marks.access.isSome || h.marks.static || h.pastOverride
  | .static | .overrides => h.pastOverride
  | .unfinished => h.marks.unfinished || h.marks.overrides || h.accessor
  | .fixed => h.marks.fixed
  | .ambient => h.marks.ambient
  | .async => h.async
  | .accessor => h.accessor

/-- Something that only a field can be was said. -/
def forField (h : MemberHead) : Bool := h.accessor || h.marks.fixed || h.marks.ambient

end MemberHead

/-- A static block comes next. -/
def atStaticBlock : Parser Bool := do
  if ← atWord "static" then return (← following).kind = .punct "\x7b" else return false

/-- The word here that marks the member, given the words before it. Only `static` may end its
line, and it counts once. -/
def modifierHere? (h : MemberHead) : Parser (Option ModifierWord) := do
  match ← kind with
  | .word w =>
    match ModifierWord.ofWord? w with
    | some m =>
      let blocked ← if m = .static then pure (h.marks.static || (← atStaticBlock)) else pure false
      if blocked || !(← atModifier w (m ≠ .static)) then return none else return some m
    | none => return none
  | _ => return none

/-- The words before the name of a member. -/
def memberHead : Nat → MemberHead → Parser MemberHead
  | 0, _ => throw .tooDeep
  | bound + 1, h => do
    match ← modifierHere? h with
    | none => return h
    | some m =>
      flawIf (h.refuses m)
      advanceKeyword
      memberHead bound (h.add m)

/-! ## Members -/

/-- A getter or setter, behind its first word. -/
def accessorMethod (r : Rules) ( begin : Nat) (decorated : List Tree) (kind : MethodKind)
    (h : MemberHead) : Parser Tree := do
  flawIf (h.forField || h.async)
  let (key, computed) ← propertyName r true
  checkPrivateName key
  let name := memberName? key computed
  flawIf (name == some "constructor" && !h.marks.static)
  flawIf (h.marks.static && name == some "prototype")
  let f ← methodFunction r false false
  match kind with
  | .get => checkGetter f
  | _ => checkSetter f
  node (.method kind computed h.marks) begin (decorated ++ [key, f])

/-- The value of a field behind its `=`, commas included. The value of an accessor has none, and
may wait where the class may. -/
def fieldValue (r : Rules) (accessor : Bool) : Parser Tree :=
  if accessor then within (fun c => { c with inDecorator := false }) r.assignment
  else within (fun c => { c with
      allowIn := true, allowAwait := false, inGenerator := false, inDecorator := false })
    r.expression

/-- A field behind its name. -/
def fieldRest (r : Rules) ( begin : Nat) (decorated : List Tree) (key : Tree) (computed : Bool)
    (h : MemberHead) : Parser Tree := do
  flawIf h.async
  let name := memberName? key computed
  flawIf (name == some "constructor" || (h.marks.static && name == some "prototype"))
  let value ← if ← eatPunct "=" then fieldValue r h.accessor else pure .absent
  endStatement
  node (.field computed h.accessor h.marks) begin (decorated ++ [key, value])

/-- A method behind its name. -/
def methodRest (r : Rules) ( begin : Nat) (decorated : List Tree) (key : Tree) (computed : Bool)
    (generator : Bool) (h : MemberHead) : Parser Tree := do
  flawIf h.forField
  let name := memberName? key computed
  let isConstructor := !h.marks.static && name == some "constructor"
  flawIf (isConstructor && (generator || h.async))
  flawIf (h.marks.static && name == some "prototype")
  let f ← methodFunction r h.async generator
  let kind := if isConstructor then MethodKind.constructor else MethodKind.method
  node (.method kind computed h.marks) begin (decorated ++ [key, f])

/-- A member of a class behind the words before its name. -/
def memberRest (r : Rules) ( begin : Nat) (decorated : List Tree) (h : MemberHead) :
    Parser Tree := do
  if ← atModifier "get" false then
    advanceKeyword
    accessorMethod r begin decorated .get h
  else if ← atModifier "set" false then
    advanceKeyword
    accessorMethod r begin decorated .set h
  else
    let generator ← eatPunct "*"
    let (key, computed) ← propertyName r true
    checkPrivateName key
    let optional ← eatPunct "?"
    let h := { h with marks := { h.marks with optional := optional } }
    if generator || (← atPunct "(") then
      methodRest r begin decorated key computed generator h
    else
      let definite ← eatPunct "!"
      flawIf (optional && definite)
      let h := { h with marks := { h.marks with definite := definite } }
      fieldRest r begin decorated key computed h

/-- A member of a class. -/
def classMember (r : Rules) : Parser Tree := do
  let begin ← start
  let decorated ← decorators r
  let outer ← start
  let h ← memberHead r.bound {}
  if ← atStaticBlock then
    flawIf (!decorated.isEmpty || (← start) != outer)
    advanceKeyword
    staticBlock r begin
  else memberRest r begin decorated h

/-- The members of a class in braces; semicolons between them mean nothing. -/
def classBody (r : Rules) : Parser Tree := do
  let begin ← start
  expectPunct "\x7b"
  let members ← itemsUntil (return (← atPunct "\x7d") || (← atEnd))
    (do
      if ← eatPunct ";" then return none
      else return some (← classMember r)) r.bound
  expectPunct "\x7d"
  node .classBody begin (members.filterMap id)

/-- The name of a type with its member steps. -/
def interfaceSteps ( begin : Nat) : Nat → Tree → Parser Tree
  | 0, _ => throw .tooDeep
  | bound + 1, t => do
    if ← eatPunct "." then
      let p ← anyWord
      interfaceSteps begin bound (← node (.member false) begin [t, p])
    else return t

/-- The name of a type. -/
def interfaceName (r : Rules) : Parser Tree := do
  let t ← token
  match t.kind with
  | .word w =>
    if reservedWords.contains w then unexpected
    advance
    interfaceSteps t.start r.bound (.node (.identifier w) ⟨t.start, t.stop⟩ [])
  | _ => unexpected

/-- Names of types with commas between. -/
def interfaceNames (r : Rules) : Nat → Parser (List Tree)
  | 0 => throw .tooDeep
  | bound + 1 => do
    let t ← interfaceName r
    if ← eatPunct "," then return t :: (← interfaceNames r bound) else return [t]

/-- The types that a class says it has, if it does. -/
def interfaces (r : Rules) : Parser Tree := do
  let begin ← start
  if ← eatWord "implements" then node .interfaces begin (← interfaceNames r r.bound)
  else return .absent

/-- The name of a class, if it has one. -/
def className : Parser Tree := do
  match ← kind with
  | .word w => if isBindingWord w && w != "implements" then bindingName else return .absent
  | _ => return .absent

/-- A class from its keyword on, behind its decorators. -/
def classFrom (r : Rules) (form : ClassForm) ( begin : Nat) (decorated : List Tree) :
    Parser Tree := do
  expectWord "class"
  let name ← className
  let parent ← if ← eatWord "extends" then r.operand else pure .absent
  let types ← interfaces r
  let body ← within (fun c => { c with inDecorator := false }) (classBody r)
  node (.classNode form) begin (decorated ++ [name, parent, types, body])

end Reactive.Script.Parser
