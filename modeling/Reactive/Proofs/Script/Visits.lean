/-
  The visits of the walk that builds scopes.

  Building the scopes of a script visits its nodes in document order, each with the scope that is
  current there; the parts of an import are not visited. The record of these visits says all there
  is to know about the scopes: a visited node that opens a scope gives it the next number and the
  scope around the node as its parent, and the names of a scope are those that visited nodes put
  there.
-/
import Reactive.Proofs.Script.Lookup
import Mathlib.Data.List.Nodup

namespace Reactive.Script

/-- The label of imports, whose parts are not visited. -/
def Label.isImport : Label → Bool
  | .importStatement .. => true
  | _ => false

/-- The label of nodes that open a scope. -/
def Label.opens (l : Label) : Bool := l.scopeKind?.isSome

/-! ## Parts in turn -/

/-- Visits parts one after the other. Each changes a state and gives results, which are kept behind
the number of the part. -/
def inTurn {σ β : Type} (put : Nat → β → β) : Nat → List (σ → List β × σ) → σ → List β × σ
  | _, [], s => ([], s)
  | i, visit :: visits, s =>
    let first := visit s
    let rest := inTurn put (i + 1) visits first.2
    (first.1.map (put i) ++ rest.1, rest.2)

section

variable {σ β : Type} {put : Nat → β → β}

/-- A result comes from one of the parts, in the state that the parts before it lead to. -/
theorem mem_inTurn {visits : List (σ → List β × σ)} {i : Nat} {s : σ} {b : β} :
    b ∈ (inTurn put i visits s).1 ↔ ∃ k visit, visits[k]? = some visit
      ∧ ∃ a ∈ (visit (inTurn put i (visits.take k) s).2).1, put (i + k) a = b := by
  induction visits generalizing i s with
  | nil => simp [inTurn]
  | cons first visits ih =>
    rw [inTurn, List.mem_append, ih, List.mem_map]
    constructor
    · rintro (⟨a, ha, hb⟩ | ⟨k, visit, hk, a, ha, hb⟩)
      · exact ⟨0, first, rfl, a, ha, hb⟩
      · refine ⟨k + 1, visit, by simpa using hk, a, ?_, ?_⟩
        · simpa [inTurn] using ha
        · rwa [Nat.add_assoc, Nat.add_comm 1] at hb
    · rintro ⟨k, visit, hk, a, ha, hb⟩
      cases k with
      | zero =>
        obtain rfl : first = visit := by simpa using hk
        exact Or.inl ⟨a, ha, hb⟩
      | succ k =>
        refine Or.inr ⟨k, visit, by simpa using hk, a, ?_, ?_⟩
        · simpa [inTurn] using ha
        · rwa [Nat.add_assoc, Nat.add_comm 1]

end

/-! ## Entering a node -/

namespace ScopeTree

/-- What a node does before its parts are visited: the scope that they stand in, and the scopes by
then. -/
def entered (t : ScopeTree) (l : Label) (s : Span) (cs : List Tree) (current : Nat) :
    Nat × ScopeTree :=
  let t := t.declaredAll (t.outerTarget l current) (outerNames l cs)
  match l.scopeKind? with
  | none => (current, t)
  | some kind =>
    (t.scopes.length, (t.opened kind current s).declaredAll t.scopes.length (innerNames l cs))

/-- Building at an import: its names are declared. -/
theorem visit_import {l : Label} (h : l.isImport) (s : Span) (cs : List Tree) (current : Nat)
    (t : ScopeTree) : (Tree.node l s cs).fold visitNode current t
      = t.declared rootId (Tree.node l s cs).introduced .imported := by
  rw [Tree.fold_node]
  cases l <;> simp_all [Label.isImport, visitNode, Function.comp_def]

theorem visitNode_of_not_isImport {l : Label} (h : l.isImport = false) (s : Span)
    (children : List (Tree × Visit)) (current : Nat) (t : ScopeTree) :
    visitNode l s children current t =
      let inside := t.entered l s (children.map (·.1)) current
      visitAll inside.1 children inside.2 := by
  unfold visitNode entered
  split
  · exact absurd h (by simp [Label.isImport])
  · cases l.scopeKind? <;> rfl

/-- Building at any other node: it is entered and its parts are visited in turn. -/
theorem visit_node {l : Label} (h : l.isImport = false) (s : Span) (cs : List Tree)
    (current : Nat) (t : ScopeTree) : (Tree.node l s cs).fold visitNode current t =
      let inside := t.entered l s cs current
      cs.foldl (fun u c => c.fold visitNode inside.1 u) inside.2 := by
  rw [Tree.fold_node, visitNode_of_not_isImport h, List.map_map]
  have hparts : cs.map ((·.1) ∘ fun c => (c, c.fold visitNode)) = cs := List.map_id' cs
  rw [hparts]
  exact List.foldl_map

end ScopeTree

/-! ## The record -/

/-- A visit of a node: its address, the scope that is current, and the scope of its parts. -/
structure Visited where
  path : List Nat
  node : Tree
  scope : Nat
  inner : Nat

/-- The visited node opens a scope. -/
def Visited.opens (v : Visited) : Bool := v.node.label.opens

/-- The visit as seen from a node of which the visited tree is the part of a number. -/
def Visited.below (i : Nat) (v : Visited) : Visited := { v with path := i :: v.path }

/-- Those visits that open a scope. -/
def openers (visits : List Visited) : List Visited := visits.filter (·.opens)

@[simp] theorem openers_append (visits more : List Visited) :
    openers (visits ++ more) = openers visits ++ openers more := List.filter_append ..

theorem mem_openers {visits : List Visited} {v : Visited} :
    v ∈ openers visits ↔ v ∈ visits ∧ v.opens = true := List.mem_filter

theorem openers_below (i : Nat) (visits : List Visited) :
    openers (visits.map (Visited.below i)) = (openers visits).map (Visited.below i) := by
  rw [openers, List.filter_map]
  rfl

namespace Tree

/-- Building scopes with a record of the visits. -/
def recorded (t : Tree) : Nat → ScopeTree → List Visited × ScopeTree :=
  t.fold fun l s parts current scopes =>
    let cs := parts.map (·.1)
    if l.isImport then
      ([⟨[], node l s cs, current, current⟩],
        scopes.declared ScopeTree.rootId (node l s cs).introduced .imported)
    else
      let inside := scopes.entered l s cs current
      let below := inTurn Visited.below 0 (parts.map fun part => part.2 inside.1) inside.2
      (⟨[], node l s cs, current, inside.1⟩ :: below.1, below.2)

theorem recorded_import {l : Label} (h : l.isImport) (s : Span) (cs : List Tree) (current : Nat)
    (scopes : ScopeTree) : (node l s cs).recorded current scopes =
      ([⟨[], node l s cs, current, current⟩],
        scopes.declared ScopeTree.rootId (node l s cs).introduced .imported) := by
  rw [recorded, fold_node]
  simp [h, Function.comp_def]

theorem recorded_node {l : Label} (h : l.isImport = false) (s : Span) (cs : List Tree)
    (current : Nat) (scopes : ScopeTree) : (node l s cs).recorded current scopes =
      let inside := scopes.entered l s cs current
      let below := inTurn Visited.below 0 (cs.map fun c => c.recorded inside.1) inside.2
      (⟨[], node l s cs, current, inside.1⟩ :: below.1, below.2) := by
  rw [recorded, fold_node]
  simp [h, Function.comp_def, recorded]

/-- The record changes nothing about what is built. -/
theorem recorded_snd (t : Tree) (current : Nat) (scopes : ScopeTree) :
    (t.recorded current scopes).2 = t.fold ScopeTree.visitNode current scopes := by
  induction t using ind generalizing current scopes with
  | node l s cs ih =>
    by_cases hl : l.isImport
    · rw [recorded_import hl, ScopeTree.visit_import hl]
    · rw [Bool.not_eq_true] at hl
      have hparts : ∀ (ts : List Tree), (∀ c ∈ ts, c ∈ cs) → ∀ i inner scopes,
          (inTurn Visited.below i (ts.map fun c => c.recorded inner) scopes).2
            = ts.foldl (fun u c => c.fold ScopeTree.visitNode inner u) scopes := by
        intro ts
        induction ts with
        | nil => intros; rfl
        | cons c ts ihts =>
          intro hts i inner scopes
          rw [List.map_cons, inTurn, List.foldl_cons]
          dsimp only
          rw [ihts fun c hc => hts c (List.mem_cons_of_mem _ hc), ih c (hts c List.mem_cons_self)]
      rw [recorded_node hl, ScopeTree.visit_node hl]
      exact hparts cs (fun c hc => hc) _ _ _

/-! ## Places of visits -/

/-- The scopes by the time the part of a number is visited. -/
def scopesBefore (cs : List Tree) (inner : Nat) (scopes : ScopeTree) (i : Nat) : ScopeTree :=
  (inTurn Visited.below 0 ((cs.take i).map fun c => c.recorded inner) scopes).2

/-- A visit below a node is the visit of the node or a visit below one of its parts. -/
theorem mem_recorded_node {l : Label} (h : l.isImport = false) {s : Span} {cs : List Tree}
    {current : Nat} {scopes : ScopeTree} {v : Visited} :
    v ∈ ((node l s cs).recorded current scopes).1 ↔
      v = ⟨[], node l s cs, current, (scopes.entered l s cs current).1⟩
      ∨ ∃ (i : Nat) (c : Tree), cs[i]? = some c ∧ ∃ u ∈ (c.recorded (scopes.entered l s cs current).1
          (scopesBefore cs (scopes.entered l s cs current).1
            (scopes.entered l s cs current).2 i)).1, u.below i = v := by
  rw [recorded_node h]
  dsimp only
  rw [List.mem_cons, mem_inTurn]
  simp only [List.getElem?_map, Option.map_eq_some_iff, Nat.zero_add, ← List.map_take]
  refine or_congr_right ⟨?_, ?_⟩
  · rintro ⟨i, _, ⟨c, hc, rfl⟩, hu⟩
    exact ⟨i, c, hc, hu⟩
  · rintro ⟨i, c, hc, hu⟩
    exact ⟨i, _, ⟨c, hc, rfl⟩, hu⟩

/-- The node itself is visited in the current scope. -/
theorem exists_visit_nil (t : Tree) (current : Nat) (scopes : ScopeTree) :
    ∃ inner, (⟨[], t, current, inner⟩ : Visited) ∈ (t.recorded current scopes).1 := by
  obtain ⟨l, s, cs⟩ := t
  by_cases hl : l.isImport
  · exact ⟨current, by rw [recorded_import hl]; exact List.mem_singleton_self _⟩
  · rw [Bool.not_eq_true] at hl
    exact ⟨_, (mem_recorded_node hl).mpr (Or.inl rfl)⟩

/-- No address is visited twice. -/
theorem eq_of_path_eq {t : Tree} {current : Nat} {scopes : ScopeTree} {v w : Visited}
    (hv : v ∈ (t.recorded current scopes).1) (hw : w ∈ (t.recorded current scopes).1)
    (hpath : v.path = w.path) : v = w := by
  induction t using ind generalizing current scopes v w with
  | node l s cs ih =>
    by_cases hl : l.isImport
    · rw [recorded_import hl] at hv hw
      rw [List.mem_singleton.mp hv, List.mem_singleton.mp hw]
    · rw [Bool.not_eq_true] at hl
      rcases (mem_recorded_node hl).mp hv with rfl | ⟨i, c, hc, u, hu, rfl⟩ <;>
        rcases (mem_recorded_node hl).mp hw with rfl | ⟨j, d, hd, x, hx, rfl⟩
      · rfl
      · exact absurd hpath (by simp [Visited.below])
      · exact absurd hpath (by simp [Visited.below])
      · -- The same part is visited in the same state.
        obtain ⟨rfl, hrest⟩ := List.cons.inj hpath
        obtain rfl : c = d := Option.some_inj.mp (hc.symm.trans hd)
        rw [ih c (List.mem_of_getElem? hc) hu hx hrest]

/-- A node below the top is visited in the scope that the node around it has for its parts. -/
theorem exists_visit_around {t : Tree} {current : Nat} {scopes : ScopeTree} {v : Visited}
    {path : List Nat} {i : Nat} (h : v ∈ (t.recorded current scopes).1)
    (hpath : v.path = path ++ [i]) :
    ∃ w ∈ (t.recorded current scopes).1, w.path = path ∧ w.inner = v.scope := by
  induction t using ind generalizing current scopes v path with
  | node l s cs ih =>
    by_cases hl : l.isImport
    · rw [recorded_import hl] at h
      obtain rfl := List.mem_singleton.mp h
      exact absurd hpath (by simp)
    · rw [Bool.not_eq_true] at hl
      rcases (mem_recorded_node hl).mp h with rfl | ⟨k, c, hc, u, hu, rfl⟩
      · exact absurd hpath (by simp)
      · cases path with
        | nil =>
          -- The part itself is visited in the scope for parts.
          obtain ⟨rfl, hnil⟩ := List.cons.inj hpath
          obtain ⟨inner, hself⟩ := exists_visit_nil c (scopes.entered l s cs current).1
            (scopesBefore cs (scopes.entered l s cs current).1
              (scopes.entered l s cs current).2 k)
          obtain rfl := eq_of_path_eq hu hself hnil
          exact ⟨_, (mem_recorded_node hl).mpr (Or.inl rfl), rfl, rfl⟩
        | cons j path =>
          obtain ⟨rfl, hrest⟩ := List.cons.inj hpath
          obtain ⟨w, hw, rfl, hinner⟩ := ih c (List.mem_of_getElem? hc) hu hrest
          exact ⟨w.below k, (mem_recorded_node hl).mpr (Or.inr ⟨k, c, hc, w, hw, rfl⟩), rfl, hinner⟩

end Tree

end Reactive.Script
