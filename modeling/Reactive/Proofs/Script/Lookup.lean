/-
  Looking names up from a place in a script.

  The scopes around a scope have smaller and smaller numbers, so the root, number 0, comes
  last: a name that some other scope around a place declares never belongs to the root there.
  The scope of a place is that of the innermost node around it that opens one; a cursor that
  has walked to the place stands in just that scope.
-/
import Reactive.Script.Scope.Cursor
import Reactive.Proofs.Script.Address
import Mathlib.Data.List.Basic

namespace Reactive.Script

namespace ScopeTree

/-! ## The scopes around a scope -/

/-- No scope around a scope has a larger number. -/
theorem le_of_mem_chain (t : ScopeTree) {id k : Nat} (h : k ∈ t.chain id) : k ≤ id := by
  fun_induction chain t id with
  | case1 => exact absurd h (by simp)
  | case2 | case4 => simp_all
  | case3 id s hs p hp hlt ih =>
    rcases List.mem_cons.mp h with rfl | hk
    · exact Nat.le_refl k
    · have := ih hk
      omega

/-- From the inside out, the numbers of scopes go down. -/
theorem pairwise_chain (t : ScopeTree) (id : Nat) : (t.chain id).Pairwise (· > ·) := by
  fun_induction chain t id with
  | case1 => exact List.Pairwise.nil
  | case2 | case4 => exact List.pairwise_singleton _ _
  | case3 id s hs p hp hlt ih =>
    refine List.pairwise_cons.mpr ⟨?_, ih⟩
    intro k hk
    have := t.le_of_mem_chain hk
    omega

/-- A name that a scope around a place declares is found there, and no further out than that. -/
theorem exists_findOwner_ge {t : ScopeTree} {id k : Nat} {name : String} (hk : k ∈ t.chain id)
    (hd : t.declaresAt name k) : ∃ owner, t.findOwner id name = some owner ∧ k ≤ owner := by
  have hpair := t.pairwise_chain id
  unfold findOwner
  generalize t.chain id = scopes at hk hpair
  induction scopes with
  | nil => exact absurd hk (by simp)
  | cons j scopes ih =>
    rw [List.find?_cons]
    rcases List.mem_cons.mp hk with rfl | hk
    · exact ⟨k, by rw [hd], Nat.le_refl k⟩
    · have hj : j > k := (List.pairwise_cons.mp hpair).1 k hk
      by_cases hdj : t.declaresAt name j
      · exact ⟨j, by rw [hdj], Nat.le_of_lt hj⟩
      · rw [Bool.not_eq_true] at hdj
        rw [hdj]
        exact ih hk (List.pairwise_cons.mp hpair).2

/-- A name that belongs to the root is declared there. -/
theorem mem_root_names {t : ScopeTree} {id : Nat} {name : String}
    (h : t.findOwner id name = some rootId) : name ∈ t.root.names := by
  have hdeclares : t.declaresAt name rootId = true := List.find?_some h
  unfold declaresAt scope? at hdeclares
  cases hscopes : t.scopes with
  | nil => simp [hscopes] at hdeclares
  | cons first scopes =>
    have hfirst : first.declares name = true := by simpa [hscopes, rootId] using hdeclares
    obtain ⟨d, hd, hname⟩ := List.any_eq_true.mp hfirst
    rw [root, hscopes, List.headD_cons]
    exact List.mem_map.mpr ⟨d, hd, by simpa using hname⟩

/-! ## The scope of a place -/

/-- The scope inside a node, given the scope around it. -/
def scopeInside (t : ScopeTree) (around : Nat) (l : Label) (s : Span) : Nat :=
  match l.scopeKind? with
  | none => around
  | some _ => (t.scopeOf? s).getD around

/-- The scope that the node at an address stands in, given the scope around the tree. -/
def scopeAt (t : ScopeTree) (around : Nat) : Tree → List Nat → Nat
  | _, [] => around
  | .node l s cs, i :: path =>
    match cs[i]? with
    | none => around
    | some c => scopeAt t (t.scopeInside around l s) c path

@[simp] theorem scopeAt_nil (t : ScopeTree) (around : Nat) (tree : Tree) :
    t.scopeAt around tree [] = around := by
  cases tree; rfl

theorem scopeAt_cons (t : ScopeTree) (around : Nat) {l : Label} {s : Span} {cs : List Tree}
    {i : Nat} {c : Tree} (hc : cs[i]? = some c) (path : List Nat) :
    t.scopeAt around (.node l s cs) (i :: path)
      = t.scopeAt (t.scopeInside around l s) c path := by
  rw [scopeAt, hc]

end ScopeTree

namespace ScopeCursor

@[simp] theorem tree_inside (c : ScopeCursor) (l : Label) (s : Span) :
    (c.inside l s).tree = c.tree := by
  unfold inside enter?
  split
  · rfl
  · cases c.tree.scopeOf? s <;> rfl

@[simp] theorem current_inside (c : ScopeCursor) (l : Label) (s : Span) :
    (c.inside l s).current = c.tree.scopeInside c.current l s := by
  unfold inside enter? ScopeTree.scopeInside
  cases l.scopeKind? with
  | none => rfl
  | some kind => cases c.tree.scopeOf? s <;> rfl

end ScopeCursor

end Reactive.Script
