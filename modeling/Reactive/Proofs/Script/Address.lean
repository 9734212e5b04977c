/-
  Addresses in syntax trees.

  An address is the list of child numbers that leads from the root of a tree to a node.
  Together with an induction over trees and the equation of a fold at a node, addresses are
  all that statements about single places of a script need. Lists of addresses are collected
  from the parts of a node, each address behind the number of its part.
-/
import Reactive.Script.Tree
import Mathlib.Data.List.Nodup

namespace Reactive.Script

/-! ## Collecting over the parts of a node -/

/-- What the parts of a node come to, each with its number, one after the other. -/
def gather {α β : Type} (parts : List α) (g : Nat → α → List β) : List β :=
  parts.zipIdx.flatMap fun x => g x.2 x.1

section

variable {α β γ : Type} {parts : List α} {g : Nat → α → List β}

theorem mem_gather {b : β} : b ∈ gather parts g ↔ ∃ i a, parts[i]? = some a ∧ b ∈ g i a := by
  simp only [gather, List.mem_flatMap, List.mem_zipIdx_iff_getElem?, Prod.exists]
  exact exists_comm

theorem gather_congr {g' : Nat → α → List β} (h : ∀ i a, parts[i]? = some a → g i a = g' i a) :
    gather parts g = gather parts g' :=
  List.flatMap_congr fun x hx => h x.2 x.1 (List.mem_zipIdx_iff_getElem?.mp hx)

theorem gather_map (k : γ → α) (as : List γ) :
    gather (as.map k) g = gather as fun i a => g i (k a) := by
  rw [gather, List.zipIdx_map, List.flatMap_map]
  rfl

theorem map_gather (k : β → γ) :
    (gather parts g).map k = gather parts fun i a => (g i a).map k := List.map_flatMap

theorem filter_gather (p : β → Bool) :
    (gather parts g).filter p = gather parts fun i a => (g i a).filter p := List.filter_flatMap

theorem filterMap_gather (k : β → Option γ) :
    (gather parts g).filterMap k = gather parts fun i a => (g i a).filterMap k :=
  List.filterMap_flatMap

theorem flatMap_gather (k : β → List γ) :
    (gather parts g).flatMap k = gather parts fun i a => (g i a).flatMap k := List.flatMap_assoc

/-- Without regard to their numbers, parts are collected as from any list. -/
theorem gather_const (k : α → List β) : gather parts (fun _ a => k a) = parts.flatMap k := by
  have hparts : (parts.zipIdx.map Prod.fst).flatMap k = parts.flatMap k := by
    rw [List.zipIdx_map_fst]
  rw [← hparts, List.flatMap_map]
  rfl

theorem gather_nil (g : Nat → α → List β) : gather [] g = [] := rfl

theorem gather_cons (a : α) (as : List α) :
    gather (a :: as) g = g 0 a ++ gather as fun i => g (i + 1) := by
  rw [gather, List.zipIdx_cons, List.zipIdx_succ, List.flatMap_cons, List.flatMap_map]
  rfl

/-- A path that goes into a part was collected there. -/
theorem cons_mem_gather {paths : Nat → α → List (List Nat)} {i : Nat} {path : List Nat} :
    i :: path ∈ gather parts (fun i a => (paths i a).map (i :: ·)) ↔
      ∃ a, parts[i]? = some a ∧ path ∈ paths i a := by
  simp [mem_gather]

/-- Paths into different parts differ. -/
theorem nodup_gather {paths : Nat → α → List (List Nat)}
    (h : ∀ i a, parts[i]? = some a → (paths i a).Nodup) :
    (gather parts fun i a => (paths i a).map (i :: ·)).Nodup := by
  refine List.nodup_flatMap.mpr ⟨fun x hx => ?_, ?_⟩
  · exact (h x.2 x.1 (List.mem_zipIdx_iff_getElem?.mp hx)).map (List.cons_injective)
  · have hnumbers : (parts.zipIdx.map (·.2)).Nodup := by
      rw [List.zipIdx_map_snd]
      exact List.nodup_range'
    refine (List.pairwise_map.mp hnumbers).imp fun {x y} hne path hx hy => ?_
    obtain ⟨rest, -, rfl⟩ := List.mem_map.mp hx
    obtain ⟨rest', -, heq⟩ := List.mem_map.mp hy
    exact hne (List.cons.inj heq).1.symm

/-- Paths into later parts come later. -/
theorem pairwise_gather {paths : Nat → α → List (List Nat)}
    (h : ∀ i a, parts[i]? = some a → (paths i a).Pairwise (· < ·)) :
    (gather parts fun i a => (paths i a).map (i :: ·)).Pairwise (· < ·) := by
  refine List.pairwise_flatMap.mpr ⟨fun x hx => ?_, ?_⟩
  · refine List.pairwise_map.mpr ((h x.2 x.1 (List.mem_zipIdx_iff_getElem?.mp hx)).imp ?_)
    exact fun hlt => List.cons_lt_cons_iff.mpr (.inr ⟨rfl, hlt⟩)
  · have hnumbers : (parts.zipIdx.map (·.2)).Pairwise (· < ·) := by
      rw [List.zipIdx_map_snd]
      exact List.pairwise_lt_range'
    refine (List.pairwise_map.mp hnumbers).imp fun {x y} hlt path hx path' hy => ?_
    obtain ⟨rest, -, rfl⟩ := List.mem_map.mp hx
    obtain ⟨rest', -, rfl⟩ := List.mem_map.mp hy
    exact List.cons_lt_cons_iff.mpr (.inl hlt)

end

namespace Tree

/-- Induction over trees: a node is settled once its children are. -/
@[elab_as_elim]
theorem ind {motive : Tree → Prop}
    (node : ∀ l s cs, (∀ c ∈ cs, motive c) → motive (.node l s cs)) (t : Tree) : motive t :=
  @Tree.rec motive (fun cs => ∀ c ∈ cs, motive c) node (fun _ h => nomatch h)
    (fun _ _ hc hcs => List.forall_mem_cons.mpr ⟨hc, hcs⟩) t

/-- A fold at a node. -/
theorem fold_node {α : Type} (f : Label → Span → List (Tree × α) → α) (l : Label) (s : Span)
    (cs : List Tree) : fold f (node l s cs) = f l s (cs.map fun t => (t, fold f t)) := by
  rw [fold, foldAll_eq_map]

/-! ## Addresses -/

/-- The tree at an address; none if the address leaves the tree. -/
def at? : Tree → List Nat → Option Tree
  | t, [] => some t
  | node _ _ cs, i :: path => cs[i]?.bind fun c => c.at? path

@[simp] theorem at?_nil (t : Tree) : t.at? [] = some t := by
  cases t; rfl

@[simp] theorem at?_cons (l : Label) (s : Span) (cs : List Tree) (i : Nat) (path : List Nat) :
    (node l s cs).at? (i :: path) = cs[i]?.bind fun c => c.at? path := rfl

/-- An address that goes on leads into a child. -/
theorem exists_child_of_at? {l : Label} {s : Span} {cs : List Tree} {i : Nat} {path : List Nat}
    {e : Tree} (h : (node l s cs).at? (i :: path) = some e) :
    ∃ c, cs[i]? = some c ∧ c.at? path = some e := by
  rw [at?_cons] at h
  exact Option.bind_eq_some_iff.mp h

/-! ## All addresses -/

/-- The addresses of the nodes of a tree in document order. -/
def addresses (t : Tree) : List (List Nat) :=
  t.fold fun _ _ parts => [] :: gather parts fun i part => part.2.map (i :: ·)

theorem addresses_node (l : Label) (s : Span) (cs : List Tree) :
    (node l s cs).addresses = [] :: gather cs fun i c => c.addresses.map (i :: ·) := by
  rw [addresses, fold_node, gather_map]
  rfl

/-- The addresses of a tree are those that lead to a node. -/
theorem mem_addresses {t : Tree} {path : List Nat} :
    path ∈ t.addresses ↔ ∃ e, t.at? path = some e := by
  induction t using ind generalizing path with
  | node l s cs ih =>
    rw [addresses_node, List.mem_cons]
    cases path with
    | nil => simp
    | cons i path =>
      simp only [cons_mem_gather, at?_cons, Option.bind_eq_some_iff, reduceCtorEq, false_or]
      constructor
      · rintro ⟨c, hc, hpath⟩
        obtain ⟨e, he⟩ := (ih c (List.mem_of_getElem? hc)).mp hpath
        exact ⟨e, c, hc, he⟩
      · rintro ⟨e, c, hc, he⟩
        exact ⟨c, hc, (ih c (List.mem_of_getElem? hc)).mpr ⟨e, he⟩⟩

theorem nodup_addresses (t : Tree) : t.addresses.Nodup := by
  induction t using ind with
  | node l s cs ih =>
    rw [addresses_node]
    refine List.nodup_cons.mpr ⟨?_, nodup_gather fun i c hc => ih c (List.mem_of_getElem? hc)⟩
    simp [mem_gather]

/-- Addresses are listed in their order: a node before its parts, and parts from left to right. -/
theorem pairwise_addresses (t : Tree) : t.addresses.Pairwise (· < ·) := by
  induction t using ind with
  | node l s cs ih =>
    rw [addresses_node]
    refine List.pairwise_cons.mpr
      ⟨fun path hpath => ?_, pairwise_gather fun i c hc => ih c (List.mem_of_getElem? hc)⟩
    obtain ⟨i, c, -, hmem⟩ := mem_gather.mp hpath
    obtain ⟨rest, -, rfl⟩ := List.mem_map.mp hmem
    exact List.nil_lt_cons i rest

/-! ## Taking first parts -/

/-- The tree in which the node at every marked address is replaced by its first part. -/
def collapse (t : Tree) : (List Nat → Bool) → Tree :=
  t.fold fun l s parts marked =>
    let collapsed := parts.zipIdx.map fun x => x.1.2 fun path => marked (x.2 :: path)
    if marked [] then collapsed.headD (node l s collapsed) else node l s collapsed

theorem collapse_node (l : Label) (s : Span) (cs : List Tree) (marked : List Nat → Bool) :
    (node l s cs).collapse marked =
      let collapsed := cs.zipIdx.map fun x => x.1.collapse fun path => marked (x.2 :: path)
      if marked [] then collapsed.headD (node l s collapsed) else node l s collapsed := by
  unfold collapse
  rw [fold_node]
  simp only [List.zipIdx_map, List.map_map]
  rfl

end Tree

end Reactive.Script
