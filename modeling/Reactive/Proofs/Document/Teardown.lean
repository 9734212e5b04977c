/-
  Taking a component away undoes building it.

  Two views of the same steps come together here. Read as a list, the steps that build create
  every handle once and append every handle once. Read as changes of a document, they put the
  forest of the template behind the children of the target, and the steps that take it away
  bring back every node that was there before and leave the others bare.
-/
import Reactive.Proofs.Document.Forest
import Reactive.Proofs.Emit.Walk

namespace Reactive

namespace Emit

/-! ## Handles in steps -/

/-- The handle that a step puts below another one. -/
def Step.appended? : Step → Option String
  | .appendChild _ h => some h
  | _ => none

/-- The steps of a forest put every handle below another one exactly once. -/
theorem appended_forest (f : Facts) (parent : String) (n : Nat) (nodes : List Node) :
    ((forest f parent n nodes).build.filterMap Step.appended?).Perm
      (forest f parent n nodes).handles := by
  induction nodes using Node.forestInd generalizing parent n with
  | nil => exact List.Perm.refl _
  | cons node nodes ihc ihn =>
    have hcreation (h : String) : (creation h node).appended? = none := by cases node <;> rfl
    have hattributes := filterMap_attributes (g := Step.appended?) (handle (stem node) n)
      (fun _ _ => rfl) (fun _ _ => rfl) node.attributes
    rw [forest_cons]
    dsimp only
    rw [build_append, handles_append, List.filterMap_append, around,
      List.filterMap_cons_none (hcreation _), List.filterMap_append, List.filterMap_append,
      hattributes]
    -- An element is put below its parent after the nodes below it.
    refine List.Perm.append ?_ (ihn _ _)
    exact (List.perm_append_singleton _ _).trans ((ihc _ _).cons _)

end Emit

namespace Document

open Emit

/-! ## Building and taking away -/

/-- Reactive declarations leave the document alone. -/
theorem Dom.run_declarations (declarations : List Declaration) (d : Dom) :
    Dom.run (declarations.map Step.run) d = some d := by
  induction declarations with
  | nil => rfl
  | cons r declarations ih =>
    rw [List.map_cons, Dom.run_cons rfl]
    exact ih

/-- Building puts the template behind the children of the target, and taking away gives back the
document as it was, with the new nodes left bare. -/
theorem teardown_undoes_construct (c : Component) (f : Facts) (o : Options) {d : Dom} {target : Nat}
    (hd : Ready targetName target d)
    (hchildren : ∀ i ∈ (d.node target).children, i < d.size) :
    let p := generate c f o
    let created := p.construct.filterMap Step.created?
    (created.Nodup ∧ (p.construct.filterMap Step.appended?).Perm created)
      ∧ ∃ (built final : Dom) (roots : List Nat),
        (Dom.run p.construct d = some built
          ∧ (built.node target).children = (d.node target).children ++ roots
          ∧ ShowsForest built target c.template.nodes roots
          ∧ ∀ i < d.size, i ≠ target → built.node i = d.node i)
        ∧ Dom.run p.teardown built = some final
        ∧ Dom.Along Dom.Careful p.teardown built
        ∧ (∀ i < d.size, final.node i = d.node i)
        ∧ final.size = built.size
        ∧ ∀ i, d.size ≤ i → i < final.size → (final.node i).parent = none
          ∧ (final.node i).children = [] ∧ (final.node i).listeners = [] := by
  intro p created
  have hconstruct := generate_construct c f o
  have hcreated : created = (forest f targetName 0 c.template.nodes).handles := by
    show p.construct.filterMap Step.created? = _
    rw [hconstruct, List.filterMap_append, created_forest]
    simp [Step.created?]
  have happended : p.construct.filterMap Step.appended?
      = (forest f targetName 0 c.template.nodes).build.filterMap Step.appended? := by
    rw [hconstruct, List.filterMap_append]
    simp [Step.appended?]
  refine ⟨⟨?_, ?_⟩, ?_⟩
  · rw [hcreated]
    exact (numbered_handles f targetName 0 c.template.nodes).nodup
  · rw [hcreated, happended]
    exact appended_forest f targetName 0 c.template.nodes
  obtain ⟨built, roots, hlaid⟩ := exists_laid_forest f c.template.nodes (n := 0) hd (Or.inl rfl)
  have hbuilt : (built.node target).children = (d.node target).children ++ roots := by
    rw [hlaid.parent_eq]
    rfl
  have htarget : built.handle targetName = some target := by
    have hfresh := Older.not_mem_handles (Or.inl rfl : Older 0 targetName) f targetName
      (Nat.le_refl 0) c.template.nodes
    rw [hlaid.handle_eq _ hfresh, hd.handle]
  obtain ⟨final, hfinal⟩ := hlaid.undo (d.node target).children built
    ⟨fun _ _ _ => rfl, fun _ _ => rfl, htarget, hbuilt, hchildren⟩
  refine ⟨built, final, roots, ⟨?_, hbuilt, hlaid.shows built fun _ _ _ => rfl, hlaid.node_eq⟩,
    hfinal.run, hfinal.careful, ?_, hfinal.size_eq, ?_⟩
  · rw [hconstruct, Dom.run_append hlaid.run, Dom.run_declarations]
  · intro i hi
    by_cases htarget : i = target
    · rw [htarget, hfinal.parent_eq, hlaid.parent_eq]
      rfl
    · rw [hfinal.node_eq i (Or.inl hi) htarget, hlaid.node_eq i hi htarget]
  · intro i hi hi'
    rw [hfinal.size_eq] at hi'
    rw [hfinal.bare i hi hi']
    exact ⟨rfl, rfl, rfl⟩

/-- A list with a listener on it, built behind a child that the target has already. -/
theorem teardown_undoes_list :
    let item : Node := .element "li" [⟨"onclick", .event "click" ⟨"e0", "drop"⟩⟩] [.text "a"]
    let c : Component := ⟨"", ⟨[.element "ul" [] [item], .expression ⟨"e1", "n"⟩], []⟩, none⟩
    let d : Dom :=
      { size := 2
        node := fun i => if i = 0 then (DomNode.fresh (.element "body")).withChildren [1]
          else { DomNode.fresh (.element "hr") with parent := some 0 }
        handle := fun name => if name = targetName then some 0 else none }
    let p := generate c default default
    ∃ (built final : Dom) (first second : Nat), Dom.run p.construct d = some built
      ∧ (built.node 0).children = [1, first, second]
      ∧ (built.node first).content = .element "ul"
      ∧ Dom.run p.teardown built = some final ∧ (final.node 0).children = [1] := by
  intro item c d p
  have hd : Ready targetName 0 d := ⟨rfl, by decide, fun i hi q hq => by
    have : i = 0 ∨ i = 1 := by
      change i < 2 at hi
      omega
    rcases this with rfl | rfl
    · exact absurd (show none = some q from hq) (by simp)
    · have : 0 = q := Option.some.inj hq
      rw [← this]
      decide⟩
  obtain ⟨-, built, final, roots, ⟨hrun, hroots, hshows, -⟩, hundo, -, hsame, -⟩ :=
    teardown_undoes_construct c default default hd (by decide)
  match roots, hshows with
  | [first, second], hshows =>
    refine ⟨built, final, first, second, hrun, hroots, ?_, hundo, ?_⟩
    · exact ((shows_iff ..).mp hshows.1).2.1
    · rw [hsame 0 (by decide)]
      rfl

end Document

end Reactive
