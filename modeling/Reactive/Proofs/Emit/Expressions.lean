/-
  Expressions of a template and their reactions.

  The walk over a template numbers its nodes. An expression node reacts to the reactive names
  that it reads, under the handle of its number; a reaction that nothing could trigger is left
  out, and so is a declaration that reads no reactive name. What is refreshed is therefore one
  list of reactions without those that have no triggers.
-/
import Reactive.Proofs.Emit.Forest

namespace Reactive

/-- The expression that a node shows. -/
def Node.expression? : Node → Option Expression
  | .expression e => some e
  | _ => none

/-- A node and the nodes below it in the order of the walk, each with the expression that it
shows. -/
def Node.shown (n : Node) : List (Option Expression) :=
  n.fold (fun _ _ children => none :: children.flatten) (fun _ => [none]) (fun e => [some e])

/-- The nodes of a template in the order of the walk, each with the expression that it shows. -/
def Template.shown (t : Template) : List (Option Expression) := t.nodes.flatMap Node.shown

theorem Node.shown_eq (node : Node) :
    node.shown = node.expression? :: node.children.flatMap Node.shown := by
  cases node with
  | element tag attributes children =>
    rw [shown, fold, foldAll_eq_map]
    rfl
  | text value => rfl
  | expression e => rfl

theorem Node.shown_cons (node : Node) (nodes : List Node) :
    (node :: nodes).flatMap Node.shown
      = node.expression? :: (node.children.flatMap Node.shown ++ nodes.flatMap Node.shown) := by
  rw [List.flatMap_cons, shown_eq, List.cons_append]

namespace Emit

/-- There is one handle for every node. -/
theorem length_handles (f : Facts) (parent : String) (n : Nat) (nodes : List Node) :
    (forest f parent n nodes).handles.length = (nodes.flatMap Node.shown).length := by
  induction nodes using Node.forestInd generalizing parent n with
  | nil => rfl
  | cons node nodes ihc ihn =>
    rw [forest_cons, Node.shown_cons]
    dsimp only
    rw [handles_append, List.length_append, ihn, around, List.length_cons, ihc, List.length_cons,
      List.length_append]
    omega

/-! ## Reactions -/

/-- The reaction of the expression node with a number. -/
def textReaction (f : Facts) (e : Expression) (number : Nat) : Reaction :=
  .updateText (reactiveReads f e) (handle "exp" number) (Script.printExpression e.code)

/-- The reactions of expression nodes, numbered from the first node on. -/
def textReactions (f : Facts) (n : Nat) (shown : List (Option Expression)) : List Reaction :=
  (shown.zipIdx n).filterMap fun s => s.1.map fun e => textReaction f e s.2

/-- The reactions of a component, among them those that nothing triggers. -/
def allReactions (f : Facts) (t : Template) : List Reaction :=
  textReactions f 0 t.shown ++ f.responsive.map Reaction.rerun

theorem textReactions_cons (f : Facts) (n : Nat) (o : Option Expression)
    (shown : List (Option Expression)) :
    textReactions f n (o :: shown)
      = (o.map fun e => textReaction f e n).toList ++ textReactions f (n + 1) shown := by
  cases o <;> simp [textReactions]

theorem textReactions_append (f : Facts) (n : Nat) (a b : List (Option Expression)) :
    textReactions f n (a ++ b) = textReactions f n a ++ textReactions f (n + a.length) b := by
  rw [textReactions, List.zipIdx_append, List.filterMap_append]
  rfl

theorem mem_textReactions {f : Facts} {shown : List (Option Expression)} {r : Reaction} :
    r ∈ textReactions f 0 shown ↔ ∃ k e, shown[k]? = some (some e) ∧ textReaction f e k = r := by
  simp [textReactions, List.mem_filterMap, List.mem_zipIdx_iff_getElem?]

theorem rerun_mem_allReactions {f : Facts} {t : Template} {d : Declaration} :
    .rerun d ∈ allReactions f t ↔ d ∈ f.responsive := by
  rw [allReactions, List.mem_append, mem_textReactions]
  constructor
  · rintro (⟨k, e, -, htext⟩ | hd)
    · exact absurd htext (by simp [textReaction])
    · simpa using hd
  · intro hd
    exact Or.inr (List.mem_map_of_mem hd)

theorem updateText_mem_allReactions {f : Facts} {t : Template} {reads : List String}
    {name code : String} :
    .updateText reads name code ∈ allReactions f t ↔
      ∃ k e, t.shown[k]? = some (some e) ∧ textReaction f e k = .updateText reads name code := by
  rw [allReactions, List.mem_append, mem_textReactions]
  simp

/-- The reactions of a forest are those of its expressions that something triggers. -/
theorem reactions_forest (f : Facts) (parent : String) (n : Nat) (nodes : List Node) :
    (forest f parent n nodes).reactions
      = (textReactions f n (nodes.flatMap Node.shown)).filter fun r => !r.triggers.isEmpty := by
  induction nodes using Node.forestInd generalizing parent n with
  | nil => rfl
  | cons node nodes ihc ihn =>
    -- A node has at most one reaction of its own, which is left out if nothing triggers it.
    have hown : ownReactions f (handle (stem node) n) node
        = ((node.expression?.map fun e => textReaction f e n).toList).filter
            fun r => !r.triggers.isEmpty := by
      cases node with
      | element tag attributes children => rfl
      | text value => rfl
      | expression e =>
        show (if (reactiveReads f e).isEmpty then _ else _) = _
        simp only [Node.expression?, Option.map_some, Option.toList_some]
        cases hreads : (reactiveReads f e).isEmpty <;>
          simp [textReaction, Reaction.triggers, hreads, stem]
    rw [forest_cons, Node.shown_cons, textReactions_cons, textReactions_append]
    dsimp only
    rw [reactions_append, ihn, around, ihc, hown, length_handles, List.filter_append,
      List.filter_append, List.append_assoc]
    congr 4
    omega

/-- What a compiled component refreshes: its reactions without those that nothing triggers. -/
theorem generate_refresh (c : Component) (f : Facts) (o : Options) :
    (generate c f o).refresh = (allReactions f c.template).filter fun r => !r.triggers.isEmpty := by
  show (markup f c.template).reactions ++ reruns f = _
  rw [markup_eq_forest, reactions_forest, allReactions, List.filter_append, reruns,
    List.filter_map]
  rfl

end Emit

end Reactive
