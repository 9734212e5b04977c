/-
  Nodes in document order.

  The walk over a template meets its nodes in document order and gives each of them a handle with
  the next number. The steps that build a template create the nodes in the same order, each under
  its handle, and the reactions of the template are the text updates of its nodes in that order.
-/
import Reactive.Proofs.Emit.Expressions

namespace Reactive

/-! ## Document order -/

mutual

/-- A node and the nodes below it in document order. -/
def Node.walk : Node → List Node
  | .element tag attributes children => .element tag attributes children :: Node.walkAll children
  | .text value => [.text value]
  | .expression e => [.expression e]

/-- The nodes of a forest in document order. -/
def Node.walkAll : List Node → List Node
  | [] => []
  | node :: nodes => node.walk ++ Node.walkAll nodes

end

theorem Node.walkAll_cons (node : Node) (nodes : List Node) :
    Node.walkAll (node :: nodes)
      = node :: (Node.walkAll node.children ++ Node.walkAll nodes) := by
  have hwalk : node.walk = node :: Node.walkAll node.children := by cases node <;> rfl
  rw [walkAll, hwalk, List.cons_append]

theorem Node.shown_eq_walkAll (nodes : List Node) :
    nodes.flatMap Node.shown = (Node.walkAll nodes).map Node.expression? := by
  induction nodes using Node.forestInd with
  | nil => rfl
  | cons node nodes ihc ihn => rw [shown_cons, walkAll_cons, ihc, ihn, List.map_cons,
      List.map_append]

namespace Emit

/-- The nodes of a forest in document order, each with its handle. -/
def handled (n : Nat) (nodes : List Node) : List (Node × String) :=
  ((Node.walkAll nodes).zipIdx n).map fun x => (x.1, handle (stem x.1) x.2)

/-- The first node, then the nodes below it, then the others. -/
theorem handled_cons (n : Nat) (node : Node) (nodes : List Node) :
    handled n (node :: nodes) = (node, handle (stem node) n) ::
      (handled (n + 1) node.children
        ++ handled (n + ((handled (n + 1) node.children).length + 1)) nodes) := by
  unfold handled
  rw [Node.walkAll_cons, List.zipIdx_cons, List.zipIdx_append, List.map_cons, List.map_append,
    List.length_map, List.length_zipIdx, Nat.add_assoc, Nat.add_comm 1]

/-! ## Steps that create -/

/-- The handle that a step creates. -/
def Step.created? : Step → Option String
  | .createElement h _ => some h
  | .createText h _ => some h
  | _ => none

/-- The step, if it creates a node. -/
def Step.creation? : Step → Option Step
  | .createElement h tag => some (.createElement h tag)
  | .createText h value => some (.createText h value)
  | _ => none

/-- What is not there in the steps for single attributes is not there in those for all. -/
theorem filterMap_attributes {β : Type} {g : Step → Option β} (h : String)
    (hset : ∀ name value, g (.setAttribute h name value) = none)
    (hadd : ∀ event handler, g (.addListener h event handler) = none)
    (attributes : List Attribute) :
    ((attributes.map (attributeSteps h)).flatMap (·.1)).filterMap g = [] := by
  induction attributes with
  | nil => rfl
  | cons a attributes ih =>
    obtain ⟨name, value⟩ := a
    rw [List.map_cons, List.flatMap_cons, List.filterMap_append, ih]
    cases value <;> simp [attributeSteps, hset, hadd]

section

variable (f : Facts) (parent : String) (n : Nat) (nodes : List Node)

/-- The handles of a forest belong to its nodes in document order. -/
theorem handles_forest : (forest f parent n nodes).handles = (handled n nodes).map (·.2) := by
  induction nodes using Node.forestInd generalizing parent n with
  | nil => rfl
  | cons node nodes ihc ihn =>
    rw [forest_cons, handled_cons]
    dsimp only
    rw [handles_append, around, ihn, ihc, List.length_map, List.map_cons, List.map_append,
      List.cons_append]

/-- The steps of a forest create its nodes in document order, each under its handle. -/
theorem creations_forest :
    (forest f parent n nodes).build.filterMap Step.creation?
      = (handled n nodes).map fun x => creation x.2 x.1 := by
  induction nodes using Node.forestInd generalizing parent n with
  | nil => rfl
  | cons node nodes ihc ihn =>
    have hcreation (h : String) : (creation h node).creation? = some (creation h node) := by
      cases node <;> rfl
    -- Between the creation of the node and of the nodes below it there are only its attributes.
    have hattributes := filterMap_attributes (g := Step.creation?) (handle (stem node) n)
      (fun _ _ => rfl) (fun _ _ => rfl) node.attributes
    rw [forest_cons, handled_cons]
    dsimp only
    rw [build_append, List.filterMap_append, ihn, around, List.filterMap_cons_some (hcreation _),
      List.filterMap_append, List.filterMap_append, hattributes, ihc, handles_forest,
      List.length_map]
    simp [Step.creation?]

/-- The steps of a forest create its handles in the order of the walk. -/
theorem created_forest :
    (forest f parent n nodes).build.filterMap Step.created?
      = (forest f parent n nodes).handles := by
  have hsplit : Step.created? = fun s : Step => s.creation?.bind Step.created? := by
    funext s
    cases s <;> rfl
  have hcreation (x : Node × String) : (creation x.2 x.1).created? = some x.2 := by
    obtain ⟨node, h⟩ := x
    cases node <;> rfl
  rw [hsplit, ← List.filterMap_filterMap, creations_forest, List.filterMap_map, handles_forest,
    ← List.filterMap_eq_map]
  exact List.filterMap_congr fun x _ => hcreation x

/-! ## Text updates -/

/-- The text update of a node under its handle, if it shows an expression that reads reactive
names. -/
def textUpdate? (f : Facts) (node : Node) (handle : String) : Option Reaction :=
  match node with
  | .expression e =>
    let reads := (Script.freeNames e.code).filter f.reactive.contains
    if reads = [] then none else some (.updateText reads handle (Script.printExpression e.code))
  | _ => none

/-- The reactions of a forest are the text updates of its nodes in document order. -/
theorem reactions_forest_eq_textUpdates :
    (forest f parent n nodes).reactions
      = (handled n nodes).filterMap fun x => textUpdate? f x.1 x.2 := by
  rw [reactions_forest, Node.shown_eq_walkAll, textReactions, handled, List.zipIdx_map,
    List.filterMap_map, List.filterMap_map, List.filter_filterMap]
  refine List.filterMap_congr fun x _ => ?_
  obtain ⟨node, k⟩ := x
  cases node with
  | element tag attributes children => rfl
  | text value => rfl
  | expression e =>
    -- An expression has one reaction, which is kept if something triggers it.
    show (some (textReaction f e k)).filter (fun r => !r.triggers.isEmpty)
      = if reactiveReads f e = [] then none else some (textReaction f e k)
    by_cases hreads : reactiveReads f e = [] <;>
      simp [Option.filter, textReaction, Reaction.triggers, hreads]

end

end Emit

end Reactive
