/-
  Announcing leaves bindings alone.

  Announcing puts sequences around writes, and neither a write nor a sequence declares anything. So
  every node declares the same names before and after, and an identifier refers to the same
  declaration: the one at the address that the declaring node has moved to.
-/
import Reactive.Proofs.Notify.Insertions
import Reactive.Proofs.Script.Binder

namespace Reactive

open Script

section

variable (f : Facts) (tracked : List String)

/-! ## Names -/

/-- A node stays in its place, or it is a write and becomes a sequence. -/
theorem notifyTree_cases (l : Label) (s : Span) (cs : List Tree) (cursor : ScopeCursor) :
    notifyTree f tracked (.node l s cs) cursor = announcedParts f tracked l s cs cursor
    ∨ l.isWrite = true ∧ ∃ names, notifyTree f tracked (.node l s cs) cursor
        = announced (announcedParts f tracked l s cs cursor) names := by
  by_cases hw : l.isWrite
  · rw [notifyTree_node]
    dsimp only
    split
    · exact Or.inl rfl
    · exact Or.inr ⟨hw, _, rfl⟩
  · exact Or.inl (notifyTree_of_not_isWrite f tracked (by simpa using hw) s cs cursor)

/-- What is collected from parts is the same after announcing if it is the same for every part. -/
theorem flatMap_notifyTree {β : Type} {g : Tree → List β} {cs : List Tree} {cursor : ScopeCursor}
    (h : ∀ c ∈ cs, g (notifyTree f tracked c cursor) = g c) :
    (cs.map fun c => notifyTree f tracked c cursor).flatMap g = cs.flatMap g := by
  rw [List.flatMap_map]
  exact List.flatMap_congr h

theorem introduced_notifyTree (t : Tree) (cursor : ScopeCursor) :
    (notifyTree f tracked t cursor).introduced = t.introduced := by
  induction t using Tree.ind generalizing cursor with
  | node l s cs ih =>
    rcases notifyTree_cases f tracked l s cs cursor with h | ⟨hw, names, h⟩
    · rw [h, announcedParts, Tree.introduced_node, Tree.introduced_node,
        flatMap_notifyTree f tracked fun c hc => ih c hc _]
    · rw [h, announced, Tree.introduced_node, Tree.introduced_node]
      cases l <;> first | rfl | exact absurd hw (by simp [Label.isWrite])

theorem patternNames_notifyTree (t : Tree) (cursor : ScopeCursor) :
    (notifyTree f tracked t cursor).patternNames = t.patternNames := by
  rw [Tree.patternNames, introduced_notifyTree, Tree.patternNames]

/-- The parts of a node that is neither write nor sequence are announced each. -/
theorem exists_partsOf_notifyTree (l : Label) (hw : l.isWrite = false) (hl : l ≠ .sequence)
    (t : Tree) (cursor : ScopeCursor) : ∃ inside : ScopeCursor,
      (notifyTree f tracked t cursor).partsOf l
        = (t.partsOf l).map fun c => notifyTree f tracked c inside := by
  obtain ⟨k, s, cs⟩ := t
  refine ⟨cursor.inside k s, ?_⟩
  rcases notifyTree_cases f tracked k s cs cursor with h | ⟨hk, names, h⟩
  · rw [h, announcedParts]
    by_cases heq : k = l <;> simp [Tree.partsOf, heq]
  · have hne : k ≠ l := fun heq => by rw [heq, hw] at hk; exact Bool.false_ne_true hk
    rw [h, announced]
    simp [Tree.partsOf, hne, Ne.symm hl]

/-- What is collected from the parts of nodes with a label is the same after announcing. -/
theorem flatMap_partsOf_notifyTree {g : Tree → List String}
    (h : ∀ t cursor, g (notifyTree f tracked t cursor) = g t) {l : Label}
    (hw : l.isWrite = false) (hl : l ≠ .sequence) (cs : List Tree) (cursor : ScopeCursor) :
    ((cs.map fun c => notifyTree f tracked c cursor).flatMap (Tree.partsOf l)).flatMap g
      = (cs.flatMap (Tree.partsOf l)).flatMap g := by
  rw [List.flatMap_assoc, List.flatMap_assoc]
  refine flatMap_notifyTree f tracked fun c _ => ?_
  obtain ⟨inside, hparts⟩ := exists_partsOf_notifyTree f tracked l hw hl c cursor
  rw [hparts, flatMap_notifyTree f tracked fun d _ => h d inside]

theorem declaratorNames_notifyTree (cs : List Tree) (cursor : ScopeCursor) :
    Tree.declaratorNames (cs.map fun c => notifyTree f tracked c cursor)
      = Tree.declaratorNames cs := by
  refine flatMap_notifyTree f tracked fun c _ => ?_
  obtain ⟨inside, hparts⟩ :=
    exists_partsOf_notifyTree f tracked .declarator rfl (by simp) c cursor
  rw [hparts, ← List.map_take,
    flatMap_notifyTree f tracked fun d _ => patternNames_notifyTree f tracked d inside]

theorem className_notifyTree (cs : List Tree) (cursor : ScopeCursor) :
    ScopeTree.className (cs.map fun c => notifyTree f tracked c cursor)
      = ScopeTree.className cs := by
  refine flatMap_notifyTree f tracked fun c _ => ?_
  obtain ⟨l, s, cs⟩ := c
  rcases notifyTree_cases f tracked l s cs cursor with h | ⟨hw, names, h⟩
  · rw [h, announcedParts]
    cases l <;> rfl
  · rw [h, announced]
    cases l <;> first | rfl | exact absurd hw (by simp [Label.isWrite])

/-! ## Names that statements declare -/

theorem lexicalNames_notifyTree (t : Tree) (cursor : ScopeCursor) :
    (notifyTree f tracked t cursor).lexicalNames = t.lexicalNames := by
  induction t using Tree.ind generalizing cursor with
  | node l s cs ih =>
    rcases notifyTree_cases f tracked l s cs cursor with h | ⟨hw, names, h⟩
    · -- An import declares what it introduces as a whole.
      have hself : (announcedParts f tracked l s cs cursor).patternNames
          = (Script.Tree.node l s cs).patternNames := by
        rw [← h, patternNames_notifyTree]
      rw [announcedParts] at h hself
      rw [h, Tree.lexicalNames_node, Tree.lexicalNames_node, hself, declaratorNames_notifyTree,
        className_notifyTree, ← List.map_take,
        flatMap_notifyTree f tracked fun c _ => patternNames_notifyTree f tracked c _,
        flatMap_notifyTree f tracked fun c hc => ih c hc _]
    · rw [h, announced, Tree.lexicalNames_node, Tree.lexicalNames_node]
      cases l <;> first | rfl | exact absurd hw (by simp [Label.isWrite])

theorem varNames_notifyTree (t : Tree) (cursor : ScopeCursor) :
    (notifyTree f tracked t cursor).varNames = t.varNames := by
  induction t using Tree.ind generalizing cursor with
  | node l s cs ih =>
    rcases notifyTree_cases f tracked l s cs cursor with h | ⟨hw, names, h⟩
    · rw [h, announcedParts, Tree.varNames_node, Tree.varNames_node, declaratorNames_notifyTree,
        flatMap_notifyTree f tracked fun c hc => ih c hc _]
    · rw [h, announced, Tree.varNames_node, Tree.varNames_node]
      cases l <;> first | rfl | exact absurd hw (by simp [Label.isWrite])

theorem topNames_notifyTree (cs : List Tree) (cursor : ScopeCursor) :
    Tree.topNames (cs.map fun c => notifyTree f tracked c cursor) = Tree.topNames cs := by
  rw [Tree.topNames, Tree.topNames,
    flatMap_notifyTree f tracked fun c _ => lexicalNames_notifyTree f tracked c cursor,
    flatMap_notifyTree f tracked fun c _ => varNames_notifyTree f tracked c cursor]

/-- The statements in the bodies of functions declare the same names after announcing. -/
theorem topNames_bodies_notifyTree (cs : List Tree) (cursor : ScopeCursor) :
    Tree.topNames ((cs.map fun c => notifyTree f tracked c cursor).flatMap (Tree.partsOf .body))
      = Tree.topNames (cs.flatMap (Tree.partsOf .body)) := by
  rw [Tree.topNames, Tree.topNames,
    flatMap_partsOf_notifyTree f tracked (lexicalNames_notifyTree f tracked) rfl (by simp),
    flatMap_partsOf_notifyTree f tracked (varNames_notifyTree f tracked) rfl (by simp)]

/-- A node declares the same names around its parts after announcing. -/
theorem frame_notifyTree (l : Label) (cs : List Tree) (i : Nat) (cursor : ScopeCursor) :
    Tree.frame l (cs.map fun c => notifyTree f tracked c cursor) i = Tree.frame l cs i := by
  have hpattern : ∀ ds : List Tree,
      (ds.map fun c => notifyTree f tracked c cursor).flatMap Tree.patternNames
        = ds.flatMap Tree.patternNames := fun ds =>
    flatMap_notifyTree f tracked fun c _ => patternNames_notifyTree f tracked c cursor
  have hlexical : ∀ ds : List Tree,
      (ds.map fun c => notifyTree f tracked c cursor).flatMap Tree.lexicalNames
        = ds.flatMap Tree.lexicalNames := fun ds =>
    flatMap_notifyTree f tracked fun c _ => lexicalNames_notifyTree f tracked c cursor
  have hcases : ∀ ds : List Tree,
      ((ds.map fun c => notifyTree f tracked c cursor).flatMap
          (Tree.partsOf .switchCase)).flatMap Tree.lexicalNames
        = (ds.flatMap (Tree.partsOf .switchCase)).flatMap Tree.lexicalNames := fun ds =>
    flatMap_partsOf_notifyTree f tracked (lexicalNames_notifyTree f tracked) rfl (by simp) ds cursor
  unfold Tree.frame
  simp only [← List.map_take, ← List.map_drop, hpattern, hlexical, hcases, topNames_notifyTree,
    topNames_bodies_notifyTree, className_notifyTree]

/-! ## Bindings -/

/-- The address, after announcing, of the node at an address before. A step into a node that is
announced first enters the sequence, where the node comes first. -/
def notifiedAddress (scope : Nat) : Tree → List Nat → List Nat
  | _, [] => []
  | .node l s cs, i :: path =>
    let rest := match cs[i]? with
      | none => path
      | some c => notifiedAddress (f.scopes.scopeInside scope l s) c path
    if f.trackedWrites tracked scope (.node l s cs) = [] then i :: rest else 0 :: i :: rest

@[simp] theorem notifiedAddress_nil (scope : Nat) (t : Tree) :
    notifiedAddress f tracked scope t [] = [] := by
  cases t; rfl

theorem notifiedAddress_cons {l : Label} {s : Span} {cs : List Tree} {i : Nat} {c : Tree}
    (hc : cs[i]? = some c) (scope : Nat) (path : List Nat) :
    notifiedAddress f tracked scope (.node l s cs) (i :: path) =
      let rest := notifiedAddress f tracked (f.scopes.scopeInside scope l s) c path
      if f.trackedWrites tracked scope (.node l s cs) = [] then i :: rest else 0 :: i :: rest := by
  rw [notifiedAddress, hc]

/-- Updates and assignments declare nothing. -/
theorem frame_of_isWrite {l : Label} (hw : l.isWrite) (cs : List Tree) (i : Nat) :
    Tree.frame l cs i = [] := by
  cases l <;> first | rfl | exact absurd hw (by simp [Label.isWrite])

/-- Only updates and assignments have something to announce. -/
theorem isWrite_of_trackedWrites {scope : Nat} {l : Label} {s : Span} {cs : List Tree}
    (h : f.trackedWrites tracked scope (.node l s cs) ≠ []) : l.isWrite = true := by
  by_contra hw
  exact h (by simp [Facts.trackedWrites, Facts.ownedWrites,
    Tree.writtenNames_eq_nil (by simpa using hw)])

/-- What stands at the address that a node has moved to. -/
theorem at?_notifiedAddress {t e : Tree} {path : List Nat} (he : t.at? path = some e)
    (cursor : ScopeCursor) (hc : cursor.tree = f.scopes) :
    ∃ there : ScopeCursor, there.tree = f.scopes
      ∧ there.current = f.scopes.scopeAt cursor.current t path
      ∧ (notifyTree f tracked t cursor).at? (notifiedAddress f tracked cursor.current t path)
        = some (notifyTree f tracked e there) := by
  induction path generalizing t cursor with
  | nil =>
    rw [Tree.at?_nil, Option.some_inj] at he
    subst he
    exact ⟨cursor, hc, by simp, by simp⟩
  | cons i path ih =>
    obtain ⟨l, s, cs⟩ := t
    obtain ⟨c, hget, hce⟩ := Tree.exists_child_of_at? he
    have hscope : (cursor.inside l s).current = f.scopes.scopeInside cursor.current l s := by
      rw [ScopeCursor.current_inside, hc]
    obtain ⟨there, htree, hcurrent, hat⟩ := ih hce (cursor.inside l s) (by simpa using hc)
    rw [hscope] at hcurrent hat
    refine ⟨there, htree, by rw [hcurrent, ScopeTree.scopeAt_cons _ _ hget], ?_⟩
    have hparts : (announcedParts f tracked l s cs cursor).at?
        (i :: notifiedAddress f tracked (f.scopes.scopeInside cursor.current l s) c path)
          = some (notifyTree f tracked e there) := by
      rw [announcedParts, Tree.at?_cons, List.getElem?_map, hget]
      exact hat
    -- Behind the step into the sequence, the address goes on in the parts of the write.
    rw [notifyTree_node, notifiedNames_eq_trackedWrites hc, notifiedAddress_cons f tracked hget]
    dsimp only
    split
    · exact hparts
    · exact hparts

/-- From a place that has moved, a name refers to the node that it referred to, where this has
moved to. -/
theorem binder_notifyTree {t e : Tree} {path : List Nat} (he : t.at? path = some e)
    (cursor : ScopeCursor) (hc : cursor.tree = f.scopes) (name : String) :
    (notifyTree f tracked t cursor).binder name (notifiedAddress f tracked cursor.current t path)
      = (t.binder name path).map (notifiedAddress f tracked cursor.current t) := by
  induction path generalizing t cursor with
  | nil => simp
  | cons i path ih =>
    obtain ⟨l, s, cs⟩ := t
    obtain ⟨c, hget, hce⟩ := Tree.exists_child_of_at? he
    have hscope : (cursor.inside l s).current = f.scopes.scopeInside cursor.current l s := by
      rw [ScopeCursor.current_inside, hc]
    have hchild := ih hce (cursor.inside l s) (by simpa using hc)
    rw [hscope] at hchild
    let moved := notifiedAddress f tracked cursor.current (.node l s cs)
    let inner := notifiedAddress f tracked (f.scopes.scopeInside cursor.current l s) c
    have hmoved : ∀ rest, moved (i :: rest) =
        if f.trackedWrites tracked cursor.current (.node l s cs) = [] then i :: inner rest
        else 0 :: i :: inner rest :=
      notifiedAddress_cons f tracked hget cursor.current
    have hparts : (announcedParts f tracked l s cs cursor).binder name (i :: inner path)
        = ((c.binder name path).map fun b => i :: inner b).or
          (if name ∈ Tree.frame l cs i then some [] else none) := by
      rw [announcedParts, Tree.binder_cons name (by rw [List.getElem?_map, hget]; rfl), hchild,
        frame_notifyTree, Option.map_map]
      rfl
    rw [notifyTree_node, notifiedNames_eq_trackedWrites hc, Tree.binder_cons name hget,
      Option.map_or, Option.map_map]
    show Tree.binder name _ (moved (i :: path)) = (Option.map (moved ∘ (i :: ·)) _).or _
    by_cases hnames : f.trackedWrites tracked cursor.current (.node l s cs) = []
    · have hstep : moved ∘ (i :: ·) = fun rest => i :: inner rest := by
        funext rest
        exact (hmoved rest).trans (if_pos hnames)
      rw [if_pos hnames, hmoved, if_pos hnames, hparts, hstep]
      split <;> simp
    · -- The sequence around the write declares nothing, and neither does the write.
      have hstep : moved ∘ (i :: ·) = fun rest => 0 :: i :: inner rest := by
        funext rest
        exact (hmoved rest).trans (if_neg hnames)
      have hframe := frame_of_isWrite (isWrite_of_trackedWrites f tracked hnames) cs i
      rw [hframe] at hparts ⊢
      rw [if_neg hnames, hmoved, if_neg hnames, hstep, announced,
        Tree.binder_cons_of_frame name rfl rfl, hparts]
      simp [Function.comp_def]

end

end Reactive
