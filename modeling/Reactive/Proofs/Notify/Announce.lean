/-
  What announcing writes does at one node.

  Announcing goes through a tree once. At a node it keeps label and span, goes on into the
  children, and puts a notification behind the node if there is something to announce. Only
  updates and assignments have something to announce, and what they write to does not change
  when the writes inside their targets are announced first.
-/
import Reactive.Notify
import Reactive.Proofs.Script.Address

namespace Reactive

open Script

/-! ## Writes -/

namespace Script

/-- The label of updates and assignments. -/
def Label.isWrite : Label → Bool
  | .update .. | .assign _ => true
  | _ => false

namespace Tree

/-- Only updates and assignments write. -/
theorem writtenNames_eq_nil {l : Label} (h : l.isWrite = false) (s : Span) (cs : List Tree) :
    (node l s cs).writtenNames = [] := by
  cases l <;> simp_all [Label.isWrite, writtenNames]

/-- An update or an assignment writes to what its first part writes to. -/
theorem writtenNames_cons {l : Label} (h : l.isWrite) (s : Span) (c : Tree) (cs : List Tree) :
    (node l s (c :: cs)).writtenNames = c.targetNames := by
  cases l <;> simp_all [Label.isWrite, writtenNames]

/-- The roots of a target at a node, from those of its parts. -/
def targetRootsAt (l : Label) (s : Span) (parts : List (List (String × Span))) :
    List (String × Span) :=
  match l, parts with
  | .identifier name, _ => [(name, s)]
  | .member _, object :: _ | .index _, object :: _ | .privateMember _, object :: _ => object
  | .paren, inner :: _ => inner
  | .arrayTarget, _ | .objectTarget, _ => parts.flatten
  | .targetDefault, target :: _ | .targetRest, target :: _ | .targetName, target :: _ => target
  | .targetProperty _, [_, target] => target
  | _, _ => []

/-- The roots of a target depend on its parts only through their roots. -/
theorem targetRoots_node (l : Label) (s : Span) (cs : List Tree) :
    (node l s cs).targetRoots = targetRootsAt l s (cs.map targetRoots) := by
  unfold targetRoots
  rw [fold_node]
  cases l with
  | targetProperty computed => rcases cs with _ | ⟨c, _ | ⟨d, _ | ⟨e, cs⟩⟩⟩ <;> rfl
  | arrayTarget | objectTarget => simp [targetRootsAt, List.flatMap_def, Function.comp_def]
  | _ => cases cs <;> rfl

/-- A write is no target, so it has no roots. -/
theorem targetRoots_of_isWrite {l : Label} (h : l.isWrite) (s : Span) (cs : List Tree) :
    (node l s cs).targetRoots = [] := by
  rw [targetRoots_node]
  cases l <;> simp_all [Label.isWrite, targetRootsAt]

end Tree

end Script

/-! ## One node -/

section

variable (f : Facts) (tracked : List String)

/-- A node whose parts have been announced. -/
def announcedParts (l : Label) (s : Span) (cs : List Tree) (cursor : ScopeCursor) : Tree :=
  .node l s (cs.map fun c => notifyTree f tracked c (cursor.inside l s))

/-- Announcing at a node. -/
theorem notifyTree_node (l : Label) (s : Span) (cs : List Tree) (cursor : ScopeCursor) :
    notifyTree f tracked (.node l s cs) cursor =
      let names := notifiedNames f tracked cursor (Script.Tree.node l s cs).writtenNames
      if names = [] then announcedParts f tracked l s cs cursor
      else announced (announcedParts f tracked l s cs cursor) names := by
  unfold notifyTree announcedParts
  rw [Tree.fold_node]
  simp only [List.map_map, Function.comp_def, List.map_id']
  split <;> simp_all [notifyTree]

/-- A node that is no write keeps its place. -/
theorem notifyTree_of_not_isWrite {l : Label} (h : l.isWrite = false) (s : Span)
    (cs : List Tree) (cursor : ScopeCursor) :
    notifyTree f tracked (.node l s cs) cursor = announcedParts f tracked l s cs cursor := by
  rw [notifyTree_node, Tree.writtenNames_eq_nil h]
  simp [notifiedNames]

/-- Announcing keeps the roots of targets: a write inside a target is no root before, and the
sequence it becomes is none after. -/
theorem targetRoots_notifyTree (t : Tree) (cursor : ScopeCursor) :
    (notifyTree f tracked t cursor).targetRoots = t.targetRoots := by
  induction t using Tree.ind generalizing cursor with
  | node l s cs ih =>
    have hparts : (announcedParts f tracked l s cs cursor).targetRoots
        = (Script.Tree.node l s cs).targetRoots := by
      rw [announcedParts, Tree.targetRoots_node, Tree.targetRoots_node, List.map_map]
      congr 1
      exact List.map_congr_left fun c hc => ih c hc (cursor.inside l s)
    by_cases hw : l.isWrite
    · rw [notifyTree_node]
      dsimp only
      split
      · exact hparts
      · rw [Tree.targetRoots_of_isWrite hw, announced, Tree.targetRoots_node]
        rfl
    · rw [notifyTree_of_not_isWrite f tracked (by simpa using hw), hparts]

/-- A write goes to the same names whether or not the writes inside it have been announced. -/
theorem writtenNames_announcedParts (l : Label) (s : Span) (cs : List Tree)
    (cursor : ScopeCursor) :
    (announcedParts f tracked l s cs cursor).writtenNames
      = (Script.Tree.node l s cs).writtenNames := by
  by_cases hw : l.isWrite
  · cases cs with
    | nil => rfl
    | cons c cs =>
      rw [announcedParts, List.map_cons, Tree.writtenNames_cons hw, Tree.writtenNames_cons hw,
        Tree.targetNames, Tree.targetNames, targetRoots_notifyTree]
  · rw [announcedParts, Tree.writtenNames_eq_nil (by simpa using hw),
      Tree.writtenNames_eq_nil (by simpa using hw)]

end

end Reactive
