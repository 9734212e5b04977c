/-
  The function that a compiled component is.

  The text of a compiled component is one function: variables for the handles and for the hoisted
  names, the script, and an object with three methods. Here is its tree, put together from the parts
  of the component, with the places where code of the component stands in it and the places of the
  notifications. The compiler introduces the handles, the name of the object and the parameters of
  its methods; the tree can also be had without these declarations, so that only what the component
  itself declares is left.
-/
import Reactive.Emit.Program
import Reactive.Proofs.Script.Binder

namespace Reactive.Emit

open Script

/-! ## Small trees -/

/-- A reference to a variable. -/
def variableTree (name : String) : Tree := .node (.identifier name) .none []

/-- A text. -/
def textTree (value : String) : Tree := .node (.string (value.toList.map Char.toNat)) .none []

/-- A member of an object. -/
def memberTree (object : Tree) (name : String) : Tree :=
  .node (.member false) .none [object, .node (.word name) .none []]

/-- A call of a method. -/
def callTree (object : Tree) (method : String) (args : List Tree) : Tree :=
  .node (.call false false) .none (memberTree object method :: args)

/-- An expression as a statement. -/
def statementTree (e : Tree) : Tree := .node .expressionStatement .none [e]

/-- An assignment. -/
def assignTree (target value : Tree) : Tree := .node (.assign .plain) .none [target, value]

/-- The pattern of a name that is declared. -/
def declaredTree (name : String) : Tree := .node (.binding name) .none []

/-- A declaration of one variable. -/
def declarationTree (kind : VarKind) (pattern value : Tree) : Tree :=
  .node (.variables kind) .none [.node .declarator .none [pattern, value]]

theorem lexicalNames_declarationTree {kind : VarKind} (h : kind ≠ .var) (pattern value : Tree) :
    (declarationTree kind pattern value).lexicalNames = pattern.patternNames := by
  rw [declarationTree, Tree.lexicalNames_node]
  cases kind <;> simp_all [Tree.declaratorNames, Tree.partsOf]

theorem varNames_declarationTree {kind : VarKind} (h : kind ≠ .var) (pattern value : Tree) :
    (declarationTree kind pattern value).varNames = [] := by
  rw [declarationTree, Tree.varNames_node]
  cases kind <;> simp_all

@[simp] theorem patternNames_declaredTree (name : String) :
    (declaredTree name).patternNames = [name] := by
  rw [Tree.patternNames, declaredTree, Tree.introduced_node]
  rfl

@[simp] theorem patternNames_absent : Tree.absent.patternNames = [] := by
  rw [Tree.patternNames, Tree.absent, Tree.introduced_node]
  rfl

/-! ## Code of the component -/

/-- The expression that a piece of code starts with. -/
def codeTree (source : String) : Tree :=
  match parseExpression source.toList with
  | .ok t => t
  | .error _ => .absent

/-- The statements of a reactive declaration. -/
def declarationTrees (d : Declaration) : List Tree := (programTree d.code.toList).statements

/-! ## Items of a method -/

/-- A statement of a method. -/
structure Item where
  tree : Tree
  /-- The addresses of code of the component. -/
  pieces : List (List Nat)
  /-- The addresses of the object that is told about changes. -/
  calls : List (List Nat)

/-- A statement without any code of the component. -/
def Item.plain (tree : Tree) : Item := ⟨tree, [], []⟩

/-- An operand as a tree. -/
def Operand.tree : Operand → Tree
  | .text value => textTree value
  | .code source => codeTree source

/-- The operand is code of the component. -/
def Operand.isCode : Operand → Bool
  | .text _ => false
  | .code _ => true

/-- The notification about what a declaration writes. -/
def notifications (d : Declaration) : List Tree :=
  if d.assignees.isEmpty then [] else [statementTree (refreshTree d.assignees)]

/-- The condition that one of some names has changed. -/
def guardTree (names : List String) : Tree :=
  match names.map fun n => callTree (variableTree changedName) "includes" [textTree n] with
  | [] => .absent
  | first :: more => more.foldl (fun a b => .node (.logical .or) .none [a, b]) first

/-- A step as statements. -/
def Step.items : Step → List Item
  | .createElement h tag =>
    [.plain (statementTree (assignTree (variableTree h)
      (callTree (variableTree "document") "createElement" [textTree tag])))]
  | .createText h value =>
    [⟨statementTree (assignTree (variableTree h)
        (callTree (variableTree "document") "createTextNode" [value.tree])),
      if value.isCode then [[0, 1, 1]] else [], []⟩]
  | .setAttribute h name value =>
    [⟨statementTree (callTree (variableTree h) "setAttribute" [textTree name, value.tree]),
      if value.isCode then [[0, 2]] else [], []⟩]
  | .addListener h event handler =>
    [⟨statementTree (callTree (variableTree h) "addEventListener"
      [textTree event, codeTree handler]), [[0, 2]], []⟩]
  | .appendChild parent child =>
    [.plain (statementTree (callTree (variableTree parent) "appendChild" [variableTree child]))]
  | .removeListener h event handler =>
    [⟨statementTree (callTree (variableTree h) "removeEventListener"
      [textTree event, codeTree handler]), [[0, 2]], []⟩]
  | .removeChild parent child =>
    [.plain (statementTree (callTree (variableTree parent) "removeChild" [variableTree child]))]
  | .run d => (declarationTrees d).map (fun t => ⟨t, [[]], []⟩)
    ++ (notifications d).map fun t => ⟨t, [], [[0, 0, 0]]⟩

/-- A reaction as a statement. -/
def Reaction.item : Reaction → Item
  | .updateText reads h code =>
    ⟨.node .ifStatement .none [guardTree reads,
      statementTree (assignTree (memberTree (variableTree h) "textContent") (codeTree code))],
      [[1, 0, 1]], []⟩
  | .rerun d =>
    let body := declarationTrees d
    ⟨.node .ifStatement .none [guardTree d.dependencies,
      .node .block .none (body ++ notifications d)],
      body.zipIdx.map fun x => [1, x.2],
      (notifications d).zipIdx.map fun x => [1, body.length + x.2, 0, 0, 0]⟩

/-! ## Where the code of the component stands -/

/-- The code of the component in a step. -/
def Step.code : Step → List Tree
  | .createText _ (.code source) | .setAttribute _ _ (.code source) | .addListener _ _ source
  | .removeListener _ _ source => [codeTree source]
  | .run d => declarationTrees d
  | _ => []

/-- The code of the component in a reaction. -/
def Reaction.code : Reaction → List Tree
  | .updateText _ _ source => [codeTree source]
  | .rerun d => declarationTrees d

/-- What stands at the addresses of code in an item. -/
def Item.code (item : Item) : List Tree := item.pieces.filterMap item.tree.at?

/-- The code of a step is what stands at the addresses of code. -/
theorem code_items (step : Step) : step.items.flatMap Item.code = step.code := by
  cases step with
  | run d =>
    simp [Step.items, Step.code, Item.code, List.flatMap_append, List.flatMap_map,
      List.flatMap_eq_nil_iff.mpr]
  | createText h value => cases value <;> rfl
  | setAttribute h name value => cases value <;> rfl
  | _ => rfl

/-- The code of a reaction is what stands at the addresses of code. -/
theorem code_item (reaction : Reaction) : reaction.item.code = reaction.code := by
  cases reaction with
  | updateText reads h source => rfl
  | rerun d =>
    have hat : ∀ x ∈ (declarationTrees d).zipIdx,
        (Reaction.rerun d).item.tree.at? [1, x.2] = some x.1 := by
      rintro ⟨t, i⟩ hx
      have hget : (declarationTrees d)[i]? = some t := List.mem_zipIdx_iff_getElem?.mp hx
      -- The body of the reaction comes before its notification.
      show ((declarationTrees d ++ notifications d)[i]?).bind (fun c => c.at? []) = some t
      rw [List.getElem?_append_left (List.getElem?_eq_some_iff.mp hget).1, hget]
      exact Tree.at?_nil t
    show ((declarationTrees d).zipIdx.map fun x => [1, x.2]).filterMap _ = declarationTrees d
    rw [List.filterMap_map]
    calc (declarationTrees d).zipIdx.filterMap _
        = (declarationTrees d).zipIdx.filterMap fun x => some x.1 := List.filterMap_congr hat
      _ = declarationTrees d := by rw [List.filterMap_eq_map', List.zipIdx_map_fst]

/-! ## The function -/

/-- The methods of the lifecycle. -/
inductive Method where
  | construct | refresh | teardown
deriving DecidableEq, Repr

/-- The place of a method among the others. -/
def Method.number : Method → Nat
  | .construct => 0
  | .refresh => 1
  | .teardown => 2

/-- The name of a method. -/
def Method.name : Method → String
  | .construct => "construct"
  | .refresh => refreshName
  | .teardown => "teardown"

/-- The parameter of a method. -/
def Method.parameter : Method → String
  | .construct | .teardown => targetName
  | .refresh => changedName

/-- The parts of the function of a compiled component. -/
structure Parts where
  handles : List String
  hoisted : List String
  script : List Tree
  items : Method → List Item

/-- The parts of a component. -/
def parts (c : Component) (f : Facts) (o : Options) : Parts :=
  let compiled := generate c f o
  { handles := (markup f c.template).handles
    hoisted := f.hoisted
    script := (notifyProgram f o.policy (programTree c.scriptSource.toList)).tree.children
    items := fun
      | .construct => compiled.construct.flatMap Step.items
      | .refresh => compiled.refresh.map Reaction.item
      | .teardown => compiled.teardown.flatMap Step.items }

namespace Parts

/-- A method with its parameter and its items. -/
def method (p : Parts) (introduce : String → Tree) (m : Method) : Tree :=
  .node (.function .method false false false false) .none [.absent,
    .node .parameters .none [.node .parameter .none [introduce m.parameter, .absent]],
    .node .body .none ((p.items m).map (·.tree))]

/-- The object of the lifecycle. -/
def lifecycle (p : Parts) (introduce : String → Tree) : Tree :=
  declarationTree .constant (introduce lifecycleName) (.node .object .none
    ([Method.construct, .refresh, .teardown].map fun m =>
      .node (.property .init true false false) .none
        [.node (.word m.name) .none [], p.method introduce m]))

/-- The end of the function. -/
def result : Tree := .node .returnStatement .none [variableTree lifecycleName]

/-- The statements of the function of a compiled component, given the patterns for the names that the
compiler introduces. -/
def statements (p : Parts) (introduce : String → Tree) : List Tree :=
  p.handles.map (fun h => declarationTree .lexical (introduce h) .absent)
  ++ p.hoisted.map (fun h => declarationTree .lexical (declaredTree h) .absent)
  ++ (p.script ++ [p.lifecycle introduce, result])

/-- The function of a compiled component. -/
def function (p : Parts) (introduce : String → Tree) : Tree :=
  .node (.function .exported false false false false) .none [.absent, .node .parameters .none [],
    .node .body .none (p.statements introduce)]

/-- The function with everything declared. -/
def emitted (p : Parts) : Tree := p.function declaredTree

/-- The function with only the declarations of the component. -/
def own (p : Parts) : Tree := p.function fun _ => .absent

/-! ## Places -/

/-- The address of a statement of the script. -/
def scriptPlace (p : Parts) (i : Nat) : List Nat := [2, p.handles.length + p.hoisted.length + i]

/-- The address of the object of the lifecycle in the function. -/
def lifecyclePlace (p : Parts) : List Nat := p.scriptPlace p.script.length

/-- The address of a method. -/
def methodPlace (p : Parts) (m : Method) : List Nat := p.lifecyclePlace ++ [0, 1, m.number, 1]

/-- The address of an item of a method. -/
def itemPlace (p : Parts) (m : Method) (j : Nat) : List Nat := p.methodPlace m ++ [2, j]

/-- The address of the variable that the function returns. -/
def returnPlace (p : Parts) : List Nat := p.scriptPlace (p.script.length + 1) ++ [0]

section

variable (p : Parts) (introduce : String → Tree)

/-- Behind the variables come the script, the object of the lifecycle and the end. -/
theorem getElem?_statements (i : Nat) :
    (p.statements introduce)[p.handles.length + p.hoisted.length + i]?
      = (p.script ++ [p.lifecycle introduce, result])[i]? := by
  rw [statements, List.getElem?_append_right (by simp)]
  simp

theorem getElem?_script {i : Nat} {t : Tree} (h : p.script[i]? = some t) :
    (p.script ++ [p.lifecycle introduce, result])[i]? = some t := by
  rw [List.getElem?_append_left (List.getElem?_eq_some_iff.mp h).1, h]

theorem getElem?_lifecycle :
    (p.script ++ [p.lifecycle introduce, result])[p.script.length]?
      = some (p.lifecycle introduce) := by
  simp

theorem at?_scriptPlace {i : Nat} {t : Tree}
    (h : (p.script ++ [p.lifecycle introduce, result])[i]? = some t) :
    (p.function introduce).at? (p.scriptPlace i) = some t := by
  show ((p.statements introduce)[p.handles.length + p.hoisted.length + i]?).bind
    (fun c => c.at? []) = some t
  rw [getElem?_statements, h]
  exact Tree.at?_nil t

theorem at?_lifecyclePlace :
    (p.function introduce).at? p.lifecyclePlace = some (p.lifecycle introduce) :=
  p.at?_scriptPlace introduce (p.getElem?_lifecycle introduce)

theorem at?_lifecycle (m : Method) :
    (p.lifecycle introduce).at? [0, 1, m.number, 1] = some (p.method introduce m) := by
  cases m <;> exact Tree.at?_nil _

theorem at?_method {m : Method} {j : Nat} {item : Item} (h : (p.items m)[j]? = some item) :
    (p.method introduce m).at? [2, j] = some item.tree := by
  show (((p.items m).map (·.tree))[j]?).bind (fun c => c.at? []) = some item.tree
  rw [List.getElem?_map, h]
  exact Tree.at?_nil _

theorem at?_itemPlace {m : Method} {j : Nat} {item : Item} (h : (p.items m)[j]? = some item) :
    (p.function introduce).at? (p.itemPlace m j) = some item.tree := by
  rw [itemPlace, methodPlace, List.append_assoc, Tree.at?_append, at?_lifecyclePlace,
    Option.bind_some, Tree.at?_append, at?_lifecycle, Option.bind_some, at?_method p introduce h]

/-! ## Names of the function and of its methods -/

/-- The names that a method declares. -/
def methodNames (m : Method) : List String :=
  (introduce m.parameter).patternNames ++ Tree.topNames ((p.items m).map (·.tree))

theorem frame_function : Tree.frame (.function .exported false false false false)
    (p.function introduce).children 2 = Tree.topNames (p.statements introduce) := by
  simp [function, Tree.frame, Tree.partsOf, Tree.patternNames, Tree.introduced_node]

theorem frame_method (m : Method) : Tree.frame (.function .method false false false false)
    (p.method introduce m).children 2 = p.methodNames introduce m := by
  simp [method, methodNames, Tree.frame, Tree.partsOf, Tree.patternNames, Tree.introduced_node,
    Tree.absent]

/-- The names that the function declares are those that are introduced, the hoisted ones and those of
the script. -/
theorem mem_topNames_statements {name : String} :
    name ∈ Tree.topNames (p.statements introduce) ↔
      (∃ h ∈ p.handles ++ [lifecycleName], name ∈ (introduce h).patternNames)
      ∨ name ∈ p.hoisted ∨ name ∈ Tree.topNames p.script := by
  -- Among the statements, only those of the script can declare anything besides.
  have hlexicalEnd : result.lexicalNames = [] := by rw [result, Tree.lexicalNames_node]
  have hvarEnd : result.varNames = [] := by rw [result, Tree.varNames_node]
  have hlexical : (p.statements introduce).flatMap Tree.lexicalNames
      = (p.handles.flatMap fun h => (introduce h).patternNames) ++ p.hoisted
        ++ p.script.flatMap Tree.lexicalNames ++ (introduce lifecycleName).patternNames := by
    simp [statements, lifecycle, List.flatMap_append, List.flatMap_map,
      lexicalNames_declarationTree, hlexicalEnd]
  have hnone : ∀ names : List String, (names.flatMap fun _ => ([] : List String)) = [] := fun names =>
    List.flatMap_eq_nil_iff.mpr fun _ _ => rfl
  have hvar : (p.statements introduce).flatMap Tree.varNames = p.script.flatMap Tree.varNames := by
    simp [statements, lifecycle, List.flatMap_append, List.flatMap_map, varNames_declarationTree,
      hvarEnd, hnone]
  rw [Tree.topNames, hlexical, hvar, Tree.topNames]
  simp only [List.mem_append, List.mem_flatMap, List.mem_singleton, or_and_right, exists_or,
    exists_eq_left]
  grind

/-! ## Bindings in the function -/

variable (name : String)

/-- From a statement of the function, a name refers to something inside the statement or to a name
that the function declares. -/
theorem binder_scriptPlace {i : Nat} {t : Tree}
    (h : (p.script ++ [p.lifecycle introduce, result])[i]? = some t) (rest : List Nat) :
    (p.function introduce).binder name (p.scriptPlace i ++ rest)
      = ((t.binder name rest).map (p.scriptPlace i ++ ·)).or
        (if name ∈ Tree.topNames (p.statements introduce) then some [] else none) := by
  have hplace : (p.function introduce).binder name (p.scriptPlace i)
      = if name ∈ Tree.topNames (p.statements introduce) then some [] else none := by
    -- The body is a node of its own, and the function declares what stands in it.
    have hbody : (Script.Tree.node .body .none (p.statements introduce)).binder name
        [p.handles.length + p.hoisted.length + i] = none := by
      rw [Tree.binder_cons_of_frame name ((getElem?_statements ..).trans h) rfl]
      simp
    rw [← frame_function]
    rw [function, scriptPlace, Tree.binder_cons name rfl, hbody]
    rfl
  rw [Tree.binder_append name (p.at?_scriptPlace introduce h), hplace]

/-- From an item, inside its method, a name refers to something inside the item or to a name that the
method declares. -/
theorem binder_method {m : Method} {j : Nat} {item : Item} (h : (p.items m)[j]? = some item)
    (rest : List Nat) : (p.method introduce m).binder name ([2, j] ++ rest)
      = ((item.tree.binder name rest).map ([2, j] ++ ·)).or
        (if name ∈ p.methodNames introduce m then some [] else none) := by
  have hbody : (Script.Tree.node .body .none ((p.items m).map (·.tree))).binder name [j] = none := by
    rw [Tree.binder_cons_of_frame name (by rw [List.getElem?_map, h]; rfl) rfl]
    simp
  rw [Tree.binder_append name (p.at?_method introduce h), ← frame_method]
  congr 1
  rw [method, Tree.binder_cons name rfl, hbody]
  rfl

/-- Nothing between a method and the function declares anything. -/
theorem binder_lifecycle (m : Method) (rest : List Nat) :
    (p.lifecycle introduce).binder name ([0, 1, m.number, 1] ++ rest)
      = ((p.method introduce m).binder name rest).map ([0, 1, m.number, 1] ++ ·) := by
  have hbetween : (p.lifecycle introduce).binder name [0, 1, m.number, 1] = none := by
    cases m <;> simp [lifecycle, declarationTree, Tree.binder, Tree.frame, Method.number]
  rw [Tree.binder_append name (p.at?_lifecycle introduce m), hbetween, Option.or_none]

/-- From an item of a method, a name refers to something inside the item, to a name that the method
declares, or to a name that the function declares. -/
theorem binder_itemPlace {m : Method} {j : Nat} {item : Item} (h : (p.items m)[j]? = some item)
    (rest : List Nat) : (p.function introduce).binder name (p.itemPlace m j ++ rest)
      = ((item.tree.binder name rest).map (p.itemPlace m j ++ ·)).or
        ((if name ∈ p.methodNames introduce m then some (p.methodPlace m) else none).or
          (if name ∈ Tree.topNames (p.statements introduce) then some [] else none)) := by
  have hplace : ∀ place : List Nat, p.scriptPlace p.script.length
      ++ ([0, 1, m.number, 1] ++ ([2, j] ++ place)) = p.itemPlace m j ++ place := by
    simp [itemPlace, methodPlace, lifecyclePlace]
  have hdeclared : ((if name ∈ p.methodNames introduce m then some [] else none).map
      ([0, 1, m.number, 1] ++ ·)).map (p.scriptPlace p.script.length ++ ·)
        = if name ∈ p.methodNames introduce m then some (p.methodPlace m) else none := by
    split <;> simp [methodPlace, lifecyclePlace]
  rw [← hplace, p.binder_scriptPlace introduce name (p.getElem?_lifecycle introduce),
    p.binder_lifecycle introduce name, p.binder_method introduce name h, Option.map_or,
    Option.map_or, hdeclared, Option.map_map, Option.map_map, Option.or_assoc]
  rfl

end

end Parts

end Reactive.Emit
