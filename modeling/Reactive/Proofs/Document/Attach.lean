/-
  Attributes, listeners and places in a document.

  What the steps for one element come to: its attributes and listeners are changes of that
  element only, putting it below another node changes these two nodes, and taking it away again
  restores the node above it.
-/
import Reactive.Emit.Markup
import Reactive.Proofs.Document.Basic

namespace Reactive

/-- The listeners that an attribute asks for. -/
def Attribute.listeners (a : Attribute) : List (String × String) :=
  match a.value with
  | .event name handler => [(name, Script.printExpression handler.code)]
  | _ => []

namespace Document.Dom

open Emit

/-! ## Attributes and listeners -/

theorem modify_modify (d : Dom) (i : Nat) (g g' : DomNode → DomNode) :
    (d.modify i g).modify i g' = d.modify i (fun n => g' (g n)) := by
  simp [modify]

theorem modify_eq_self {d : Dom} {i : Nat} {g : DomNode → DomNode}
    (h : g (d.node i) = d.node i) : d.modify i g = d := by
  simp [modify, h]

/-- The steps for attributes change only the element: they add its listeners. -/
theorem exists_run_attributes {d : Dom} {h : String} {i : Nat} (hd : d.handle h = some i)
    (attributes : List Attribute) :
    ∃ set : List (String × Operand),
      run ((attributes.map (attributeSteps h)).flatMap (·.1)) d = some (d.modify i fun n =>
        { n with
          attributes := set
          listeners := (attributes.flatMap Attribute.listeners).reverse ++ n.listeners }) := by
  induction attributes generalizing d with
  | nil => exact ⟨(d.node i).attributes, congrArg some (modify_eq_self rfl).symm⟩
  | cons a attributes ih =>
    -- Every attribute is one step on the element.
    have hstep : ∃ g : DomNode → DomNode, run (attributeSteps h a).1 d = some (d.modify i g)
        ∧ ∀ n, g n = { n with
            attributes := (g n).attributes
            listeners := a.listeners.reverse ++ n.listeners } := by
      obtain ⟨name, value⟩ := a
      cases value with
      | static value =>
        exact ⟨fun n => n.withAttribute name (.text value),
          by simp [attributeSteps, run, step, hd], fun _ => rfl⟩
      | dynamic e =>
        exact ⟨fun n => n.withAttribute name (.code (Script.printExpression e.code)),
          by simp [attributeSteps, run, step, hd], fun _ => rfl⟩
      | event event handler =>
        exact ⟨fun n => { n with
            listeners := (event, Script.printExpression handler.code) :: n.listeners },
          by simp [attributeSteps, run, step, hd], fun _ => rfl⟩
    obtain ⟨g, hrun, hg⟩ := hstep
    obtain ⟨set, hrest⟩ := ih (d := d.modify i g) (by simpa using hd)
    refine ⟨set, ?_⟩
    rw [List.map_cons, List.flatMap_cons, run_append hrun, hrest, modify_modify]
    congr 2
    funext n
    rw [hg n]
    simp

/-- The steps that take listeners away, one for each listener. -/
theorem removals_eq (h : String) (attributes : List Attribute) :
    (attributes.map (attributeSteps h)).flatMap (·.2)
      = (attributes.flatMap Attribute.listeners).map fun l => Step.removeListener h l.1 l.2 := by
  induction attributes with
  | nil => rfl
  | cons a attributes ih =>
    rw [List.map_cons, List.flatMap_cons, List.flatMap_cons, List.map_append, ih]
    congr 1
    obtain ⟨name, value⟩ := a
    cases value <;> rfl

/-- Taking away the latest listeners one by one leaves the earlier ones. -/
theorem run_removals {d : Dom} {h : String} {i : Nat} (hd : d.handle h = some i)
    {listeners rest : List (String × String)} (hl : (d.node i).listeners = listeners ++ rest) :
    run (listeners.map fun l => Step.removeListener h l.1 l.2) d
        = some (d.modify i fun n => { n with listeners := rest })
      ∧ Along Careful (listeners.map fun l => Step.removeListener h l.1 l.2) d := by
  induction listeners generalizing d with
  | nil =>
    refine ⟨congrArg some (modify_eq_self ?_).symm, trivial⟩
    rw [List.nil_append] at hl
    rw [← hl]
  | cons l listeners ih =>
    have hmem : l ∈ (d.node i).listeners := by rw [hl]; simp
    have hstep : d.step (.removeListener h l.1 l.2)
        = some (d.modify i fun n => { n with listeners := n.listeners.erase l }) := by
      simp [step, hd, unlisten, hmem]
    obtain ⟨hrun, halong⟩ := ih (d := d.modify i fun n => { n with
      listeners := n.listeners.erase l }) (by simpa using hd) (by simp [hl])
    constructor
    · rw [List.map_cons, run_cons hstep, hrun, modify_modify]
    · refine ⟨⟨i, hd, hmem⟩, fun d' hd' => ?_⟩
      rw [hstep, Option.some_inj] at hd'
      rw [← hd']
      exact halong

/-! ## Putting a node below another one -/

/-- Nodes that exist have only nodes above them that exist. -/
def ParentsExist (d : Dom) : Prop :=
  ∀ i < d.size, ∀ p, (d.node i).parent = some p → p < d.size

/-- The nodes of two documents agree between two numbers. -/
def SameNodes (low high : Nat) (d x : Dom) : Prop :=
  ∀ i, low ≤ i → i < high → x.node i = d.node i

section

variable (d : Dom) {p i : Nat}

theorem node_attach_parent (h : p ≠ i) :
    (d.attach p i).node p = (d.node p).withChildren ((d.node p).children ++ [i]) := by
  rw [attach, node_modify_of_ne _ _ _ h, node_modify_self]

theorem node_attach_self (h : p ≠ i) :
    (d.attach p i).node i = { d.node i with parent := some p } := by
  rw [attach, node_modify_self, node_modify_of_ne _ _ _ h.symm]

theorem node_attach_of_ne {j : Nat} (hp : j ≠ p) (hi : j ≠ i) :
    (d.attach p i).node j = d.node j := by
  rw [attach, node_modify_of_ne _ _ _ hi, node_modify_of_ne _ _ _ hp]

variable {d}

theorem detach_of_parent (h : (d.node i).parent = some p) :
    d.detach i = (d.modify p fun n => n.withChildren (n.children.erase i)).modify i
      fun n => { n with parent := none } := by
  rw [detach, h]

/-- Appending a node that is below nothing puts it behind the children that are there. -/
theorem step_appendChild {parent child : String} (hp : d.handle parent = some p)
    (hi : d.handle child = some i) (hfree : (d.node i).parent = none)
    (habove : i ∉ d.ancestors d.size p) :
    d.step (.appendChild parent child) = some (d.attach p i) := by
  have hdetach : d.detach i = d := by rw [detach, hfree]
  simp [step, hp, hi, append, habove, hdetach]

theorem step_removeChild {parent child : String} (hp : d.handle parent = some p)
    (hi : d.handle child = some i) (hbelow : (d.node i).parent = some p) :
    d.step (.removeChild parent child) = some (d.detach i) := by
  simp [step, hp, hi, remove, hbelow]

/-- The last child, once nothing is below it, loses its listeners and is taken away. -/
theorem exists_run_discard {parent child : String} {kept : List Nat}
    {listeners : List (String × String)} (hp : d.handle parent = some p)
    (hi : d.handle child = some i) (hne : p ≠ i) (hbelow : (d.node i).parent = some p)
    (hchildless : (d.node i).children = []) (hl : (d.node i).listeners = listeners)
    (hchildren : (d.node p).children = kept ++ [i]) (hkept : i ∉ kept) :
    ∃ x : Dom,
      run (listeners.map (fun l => Step.removeListener child l.1 l.2)
          ++ [.removeChild parent child]) d = some x
        ∧ Along Careful (listeners.map (fun l => Step.removeListener child l.1 l.2)
          ++ [.removeChild parent child]) d
        ∧ x.size = d.size ∧ x.handle = d.handle
        ∧ x.node p = (d.node p).withChildren kept ∧ x.node i = (d.node i).bare
        ∧ ∀ j, j ≠ p → j ≠ i → x.node j = d.node j := by
  -- The listeners go first; only the node itself changes while they do.
  obtain ⟨hrun, hcareful⟩ := run_removals hi (hl.trans (List.append_nil _).symm)
  generalize hz : (d.modify i fun n => { n with listeners := [] }) = z at hrun
  have hself : z.node i = { d.node i with listeners := [] } := by
    rw [← hz, node_modify_self]
  have hother : ∀ j, j ≠ i → z.node j = d.node j := fun j hj => by
    rw [← hz, node_modify_of_ne _ _ _ hj]
  have hhandle : z.handle = d.handle := by rw [← hz, handle_modify]
  have hparent : (z.node i).parent = some p := by rw [hself, hbelow]
  have hmem : i ∈ (z.node p).children := by
    rw [hother p hne, hchildren]
    simp
  have hstep := step_removeChild (hhandle ▸ hp) (hhandle ▸ hi) hparent
  have hdetach := detach_of_parent hparent
  refine ⟨z.detach i, ?_, ?_, ?_, ?_, ?_, ?_, ?_⟩
  · rw [run_append hrun, run_cons hstep, run_nil]
  · refine along_append hrun hcareful ⟨⟨p, i, hhandle ▸ hp, hhandle ▸ hi, hparent, hmem, ?_⟩,
      fun _ _ => trivial⟩
    rw [hself, hchildless]
  · rw [hdetach, ← hz]
    rfl
  · rw [hdetach, ← hz]
    rfl
  · -- The node is the last child and no other one, so that taking it away leaves the others.
    have herase : (kept ++ [i]).erase i = kept := by
      rw [List.erase_append_right _ hkept]
      simp
    rw [hdetach, node_modify_of_ne _ _ _ hne, node_modify_self, hother p hne, hchildren, herase]
  · rw [hdetach, node_modify_self, node_modify_of_ne _ _ _ hne.symm, hself, DomNode.bare,
      hchildless]
  · intro j hjp hji
    rw [hdetach, node_modify_of_ne _ _ _ hji, node_modify_of_ne _ _ _ hjp, hother j hji]

end

end Document.Dom

end Reactive
