/-
  Which declaration an identifier refers to.

  The rules of the language, stated on trees: what a statement declares in the block it stands in,
  what it declares in the function around it, and which names a node declares around each of its
  parts. An identifier refers to the innermost node around it that declares its name. Nothing here
  goes by the scopes that the analysis builds.
-/
import Reactive.Script.Scope.Build
import Reactive.Proofs.Script.Address

namespace Reactive.Script

namespace Tree

/-! ## Names that statements declare -/

/-- The names that a pattern, a list of parameters or an import introduces. -/
def patternNames (t : Tree) : List String := t.introduced.map (·.1)

/-- The parts of a node with a label; none of any other node. -/
def partsOf (l : Label) (t : Tree) : List Tree := if t.label = l then t.children else []

/-- The variables of a declaration, given its declarators. -/
def declaratorNames (cs : List Tree) : List String :=
  cs.flatMap fun d => ((d.partsOf .declarator).take 1).flatMap patternNames

/-- The names that a statement declares in the block that it stands in. -/
def lexicalNames (t : Tree) : List String :=
  t.fold fun l s parts =>
    let cs := parts.map (·.1)
    match l with
    | .variables .var => []
    | .variables _ => declaratorNames cs
    | .function .declaration .. | .function .exported .. => (cs.take 1).flatMap patternNames
    | .classNode .declaration | .classNode .exported => (ScopeTree.className cs).map (·.1)
    | .importStatement .. => (node l s cs).patternNames
    | .exportDeclaration | .exportDefault | .labeled => parts.flatMap (·.2)
    | _ => []

/-- The names that a statement, or one inside it, declares in the function that it stands in. -/
def varNames (t : Tree) : List String :=
  t.fold fun l _ parts =>
    match l with
    | .variables .var => declaratorNames (parts.map (·.1))
    | .block | .ifStatement | .doWhile | .whileStatement | .forStatement | .forIn | .forOf _
    | .withStatement | .switchStatement | .switchCase | .labeled | .tryStatement | .catchClause
    | .exportDeclaration => parts.flatMap (·.2)
    | _ => []

/-- The names that the statements at the top of a function declare in it. -/
def topNames (statements : List Tree) : List String :=
  statements.flatMap lexicalNames ++ statements.flatMap varNames

/-! ## Names, node by node -/

/-- The names that a pattern introduces, from those of its parts. -/
theorem introduced_node (l : Label) (s : Span) (cs : List Tree) :
    (node l s cs).introduced = match l with
      | .binding name => [(name, s)]
      | .arrayPattern | .objectPattern | .patternProperty .. | .patternDefault | .bindingRest
      | .parameters | .parameter | .restParameter
      | .importStatement .. | .importName | .importDefault | .importNamespace =>
        cs.flatMap introduced
      | _ => [] := by
  rw [introduced, fold_node]
  simp only [List.flatMap_map]
  rfl

/-- The names that a statement declares in its block, given what is inside of it. -/
theorem lexicalNames_node (l : Label) (s : Span) (cs : List Tree) :
    (node l s cs).lexicalNames = match l with
      | .variables .var => []
      | .variables _ => declaratorNames cs
      | .function .declaration .. | .function .exported .. =>
        (cs.take 1).flatMap patternNames
      | .classNode .declaration | .classNode .exported => (ScopeTree.className cs).map (·.1)
      | .importStatement .. => (node l s cs).patternNames
      | .exportDeclaration | .exportDefault | .labeled => cs.flatMap lexicalNames
      | _ => [] := by
  rw [lexicalNames, fold_node]
  simp only [List.flatMap_map, List.map_map, Function.comp_def, List.map_id']
  rfl

/-- The names that a statement declares in its function, given what is inside of it. -/
theorem varNames_node (l : Label) (s : Span) (cs : List Tree) :
    (node l s cs).varNames = match l with
      | .variables .var => declaratorNames cs
      | .block | .ifStatement | .doWhile | .whileStatement | .forStatement | .forIn | .forOf _
      | .withStatement | .switchStatement | .switchCase | .labeled | .tryStatement | .catchClause
      | .exportDeclaration => cs.flatMap varNames
      | _ => [] := by
  rw [varNames, fold_node]
  simp only [List.flatMap_map, List.map_map, Function.comp_def, List.map_id']
  rfl

/-! ## Names around a place -/

/-- The names that a node declares around the part of a number. The body of a function is not around
its parameters, and the cases of a switch are not around its subject. -/
def frame (l : Label) (cs : List Tree) (i : Nat) : List String :=
  match l with
  | .program | .staticBlock => topNames cs
  | .block => cs.flatMap lexicalNames
  | .function form .. =>
    (if form = .expression then (cs.take 1).flatMap patternNames else [])
    ++ ((cs.drop 1).take 1).flatMap patternNames
    ++ if i = 2 then topNames ((cs.drop 2).flatMap (partsOf .body)) else []
  | .arrow .. => (cs.take 1).flatMap patternNames
    ++ if i = 1 then topNames ((cs.drop 1).flatMap (partsOf .body)) else []
  | .forStatement | .forIn | .forOf _ => (cs.take 1).flatMap lexicalNames
  | .catchClause => (cs.take 1).flatMap patternNames
  | .switchStatement =>
    if i = 0 then [] else ((cs.drop 1).flatMap (partsOf .switchCase)).flatMap lexicalNames
  | .classNode _ => (ScopeTree.className cs).map (·.1)
  | _ => []

/-- The address of the innermost node around a place that declares a name. -/
def binder (name : String) : Tree → List Nat → Option (List Nat)
  | _, [] => none
  | node l _ cs, i :: path =>
    match cs[i]? with
    | none => none
    | some c => ((binder name c path).map (i :: ·)).or
        (if name ∈ frame l cs i then some [] else none)

section

variable (name : String)

@[simp] theorem binder_nil (t : Tree) : binder name t [] = none := by
  cases t; rfl

theorem binder_cons {l : Label} {s : Span} {cs : List Tree} {i : Nat} {c : Tree}
    (hc : cs[i]? = some c) (path : List Nat) : binder name (node l s cs) (i :: path)
      = ((binder name c path).map (i :: ·)).or
        (if name ∈ frame l cs i then some [] else none) := by
  rw [binder, hc]

/-- A node that declares nothing around a part is not seen from there. -/
theorem binder_cons_of_frame {l : Label} {s : Span} {cs : List Tree} {i : Nat} {c : Tree}
    (hc : cs[i]? = some c) (hframe : frame l cs i = []) (path : List Nat) :
    binder name (node l s cs) (i :: path) = (binder name c path).map (i :: ·) := by
  rw [binder_cons name hc, hframe]
  simp

/-- An address that goes on behind another one is followed from the node there. -/
theorem at?_append (t : Tree) (path rest : List Nat) :
    t.at? (path ++ rest) = (t.at? path).bind fun u => u.at? rest := by
  induction path generalizing t with
  | nil => simp
  | cons i path ih =>
    obtain ⟨l, s, cs⟩ := t
    rw [List.cons_append, at?_cons, at?_cons, Option.bind_assoc]
    simp only [ih]

/-- From a place below a node, first the node itself and what is below it are gone through, and then
what is around it. -/
theorem binder_append {t u : Tree} {path : List Nat} (h : t.at? path = some u)
    (rest : List Nat) : binder name t (path ++ rest)
      = ((binder name u rest).map (path ++ ·)).or (binder name t path) := by
  induction path generalizing t with
  | nil =>
    rw [at?_nil, Option.some_inj] at h
    subst h
    simp
  | cons i path ih =>
    obtain ⟨l, s, cs⟩ := t
    obtain ⟨c, hc, hu⟩ := exists_child_of_at? h
    rw [List.cons_append, binder_cons name hc, binder_cons name hc, ih hu, Option.map_or,
      Option.map_map, Option.or_assoc]
    rfl

end

end Tree

end Reactive.Script
