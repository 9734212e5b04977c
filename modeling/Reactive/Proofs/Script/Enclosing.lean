/-
  The scopes around a place.

  A name is looked up in the scopes of the nodes around its place, from the inside out, and last at
  the root. So a name that a block, a loop, a handler or a function holds is never found from a
  place outside of it, and an outer variable of the same name is found there as if the inner one did
  not exist. Constructs that open no scope do not hold their names: the body of a switch and a
  static block of a class give them away to whatever scope is around.
-/
import Reactive.Facts.Mutation
import Reactive.Proofs.Script.Outline
import Reactive.Script.Parse
import Mathlib.Data.List.Induction

namespace Reactive.Script

namespace ScopeTree

/-! ## Looking up by numbers -/

theorem mem_chain_self {t : ScopeTree} {id : Nat} (h : id < t.scopes.length) :
    id ∈ t.chain id := by
  obtain ⟨s, -, hs, -⟩ := exists_scope_of_extends (List.prefix_refl t.outline) h
  rw [chain, hs]
  dsimp only
  split
  · exact List.mem_singleton_self _
  · split
    · exact List.mem_cons_self
    · exact List.mem_singleton_self _

/-- The scopes around a scope whose parent is known. -/
theorem chain_of_parent {t : ScopeTree} {id p : Nat} {s : Scope} (hs : t.scope? id = some s)
    (hp : s.parent = some p) (hlt : p < id) : t.chain id = id :: t.chain p := by
  rw [chain, hs]
  dsimp only
  rw [hp]
  dsimp only
  rw [if_pos hlt]

/-- A name is found in the innermost scope that declares it. Of the scopes around a place, the
innermost one has the largest number. -/
theorem findOwner_eq_some_iff {t : ScopeTree} {id k : Nat} {name : String} :
    t.findOwner id name = some k ↔ k ∈ t.chain id ∧ t.declaresAt name k = true
      ∧ ∀ j ∈ t.chain id, k < j → t.declaresAt name j = false := by
  constructor
  · intro h
    refine ⟨List.mem_of_find?_eq_some h, List.find?_some h, fun j hj hlt => ?_⟩
    by_contra hdeclares
    obtain ⟨owner, howner, hle⟩ := exists_findOwner_ge hj (by simpa using hdeclares)
    obtain rfl : k = owner := Option.some_inj.mp (h.symm.trans howner)
    omega
  · rintro ⟨hmem, hdeclares, hinner⟩
    obtain ⟨owner, howner, hle⟩ := exists_findOwner_ge hmem hdeclares
    rcases Nat.lt_or_eq_of_le hle with hlt | rfl
    · have hnot := hinner owner (List.mem_of_find?_eq_some howner) hlt
      exact absurd (List.find?_some howner) (by simp [hnot])
    · exact howner

end ScopeTree

open ScopeTree

/-! ## Nodes around a place -/

/-- The visited node stands inside another one. -/
def Visited.Inside (v w : Visited) : Prop := w.path <+: v.path ∧ w.path ≠ v.path

instance (v w : Visited) : Decidable (v.Inside w) := inferInstanceAs (Decidable (_ ∧ _))

theorem Visited.Inside.trans {u v w : Visited} (h : u.Inside v) (hv : v.Inside w) : u.Inside w := by
  refine ⟨hv.1.trans h.1, fun heq => h.2 (h.1.eq_of_length_le ?_)⟩
  rw [← heq]
  exact hv.1.length_le

/-- Of two nodes around a place, one is the other or stands inside of it. -/
theorem Visited.Inside.total {u v w : Visited} (hv : u.Inside v) (hw : u.Inside w) :
    v.path = w.path ∨ v.Inside w ∨ w.Inside v := by
  by_cases heq : v.path = w.path
  · exact Or.inl heq
  · rcases List.prefix_or_prefix_of_prefix hv.1 hw.1 with h | h
    · exact Or.inr (Or.inr ⟨h, heq⟩)
    · exact Or.inr (Or.inl ⟨h, Ne.symm heq⟩)

/-- The nodes around a place are the node above the place and the nodes around that one. -/
theorem Visited.inside_iff_above {u v w : Visited} {path : List Nat} {i : Nat}
    (hv : v.path = path ++ [i]) (hu : u.path = path) :
    v.Inside w ↔ w.path = u.path ∨ u.Inside w := by
  unfold Visited.Inside
  rw [hv, hu]
  constructor
  · rintro ⟨hleads, hne⟩
    by_cases heq : w.path = path
    · exact Or.inl heq
    · exact Or.inr ⟨(List.prefix_concat_iff.mp hleads).resolve_left hne, heq⟩
  · rintro (heq | ⟨hleads, -⟩)
    · rw [heq]
      exact ⟨List.prefix_append _ _, by simp⟩
    · refine ⟨hleads.trans (List.prefix_append _ _), fun heq => ?_⟩
      have := hleads.length_le
      rw [heq, List.length_append, List.length_singleton] at this
      omega

section

variable {statements : List Tree} {v w : Visited}

theorem chain_root (statements : List Tree) :
    (ScopeTree.build statements).chain rootId = [rootId] := by
  have hroot : rootId < ScopeTree.start.scopes.length := by decide
  rw [chain_of_extends (grown_build statements).outline_extends hroot, chain]
  rfl

theorem scope_of_path_nil (hv : v ∈ scriptVisits statements) (hpath : v.path = []) :
    v.scope = rootId := by
  obtain ⟨inner, hself⟩ := Tree.exists_visit_nil (scriptTree statements) rootId .start
  rw [Tree.eq_of_path_eq hv hself hpath]

/-- The scopes around the parts of a node: its own, if it opens one, and those around the node. -/
theorem chain_inner (hw : w ∈ scriptVisits statements) :
    (ScopeTree.build statements).chain w.inner
      = (if w.opens then [w.inner] else []) ++ (ScopeTree.build statements).chain w.scope := by
  have hgrown := grown_build statements
  cases hopens : w.opens with
  | false => rw [hgrown.inner_eq_scope w hw hopens]; rfl
  | true =>
    obtain ⟨s, hs, -, hparent⟩ := hgrown.exists_scope_inner hw hopens
    exact chain_of_parent hs hparent (hgrown.scope_lt_inner w hw hopens)

/-- The scopes around a place are the root and the scopes of the nodes around it. -/
theorem mem_chain_scope (hv : v ∈ scriptVisits statements) {j : Nat} :
    j ∈ (ScopeTree.build statements).chain v.scope ↔
      j = rootId ∨ ∃ w ∈ scriptVisits statements, w.opens = true ∧ v.Inside w ∧ w.inner = j := by
  -- The induction takes the last step off the address of the place.
  generalize hpath : v.path = path
  induction path using List.reverseRecOn generalizing v with
  | nil =>
    rw [scope_of_path_nil hv hpath, chain_root, List.mem_singleton]
    refine ⟨Or.inl, ?_⟩
    rintro (rfl | ⟨w, -, -, hinside, -⟩)
    · rfl
    · refine absurd hinside.1 fun h => hinside.2 ?_
      rw [hpath] at h ⊢
      exact List.prefix_nil.mp h
  | append_singleton path i ih =>
    obtain ⟨u, hu, hupath, hinner⟩ := Tree.exists_visit_around hv hpath
    have hinside (w : Visited) := Visited.inside_iff_above (w := w) hpath hupath
    rw [← hinner, chain_inner hu, List.mem_append, ih hu hupath]
    constructor
    · rintro (hown | rfl | ⟨w, hw, hopens, hin, rfl⟩)
      · cases hopens : u.opens with
        | false => rw [hopens] at hown; exact absurd hown (by simp)
        | true =>
          rw [hopens] at hown
          exact Or.inr ⟨u, hu, hopens, (hinside u).mpr (Or.inl rfl), (List.mem_singleton.mp hown).symm⟩
      · exact Or.inl rfl
      · exact Or.inr ⟨w, hw, hopens, (hinside w).mpr (Or.inr hin), rfl⟩
    · rintro (rfl | ⟨w, hw, hopens, hin, rfl⟩)
      · exact Or.inr (Or.inl rfl)
      · rcases (hinside w).mp hin with heq | hin
        · obtain rfl := Tree.eq_of_path_eq hw hu heq
          rw [hopens]
          exact Or.inl (List.mem_singleton_self _)
        · exact Or.inr (Or.inr ⟨w, hw, hopens, hin, rfl⟩)

/-- The scope that a node opens is around every place inside the node and around no other place. -/
theorem inner_mem_chain_iff (hv : v ∈ scriptVisits statements) (hw : w ∈ scriptVisits statements)
    (hopens : w.opens = true) :
    w.inner ∈ (ScopeTree.build statements).chain v.scope ↔ v.Inside w := by
  have hgrown := grown_build statements
  rw [mem_chain_scope hv]
  constructor
  · rintro (hroot | ⟨u, hu, huopens, hinside, heq⟩)
    · have := hgrown.scope_lt_inner w hw hopens
      rw [hroot] at this
      exact absurd this (Nat.not_lt_zero _)
    · rwa [← hgrown.eq_of_inner_eq hu hw huopens hopens heq]
  · exact fun h => Or.inr ⟨w, hw, hopens, h, rfl⟩

end

/-! ## Names that a scope holds -/

/-- The label of declarations that are not hoisted: their names belong to the scope that the
declaration stands in. -/
def Label.isBlockScoped : Label → Bool
  | .variables kind => kind ≠ .var
  | .classNode .declaration | .function .declaration .. => true
  | _ => false

theorem outerTarget_of_isBlockScoped {l : Label} (h : l.isBlockScoped) (t : ScopeTree)
    (current : Nat) : t.outerTarget l current = current := by
  unfold outerTarget
  split
  · exact absurd h (by simp [Label.isBlockScoped])
  · rfl

theorem isImport_of_isBlockScoped {l : Label} (h : l.isBlockScoped) : l.isImport = false := by
  cases l <;> simp_all [Label.isBlockScoped, Label.isImport]

/-- The names that a visited declaration declares in the scope around it. -/
def Visited.declared (v : Visited) : List String :=
  groupNames (outerNames v.node.label v.node.children)

/-- A declaration that is not hoisted puts its names into the scope that it stands in. -/
theorem declaresAt_scope {statements : List Tree} {d : Visited} {name : String}
    (hd : d ∈ scriptVisits statements) (hblock : d.node.label.isBlockScoped)
    (hname : name ∈ d.declared) :
    (ScopeTree.build statements).declaresAt name d.scope = true := by
  refine ((grown_build statements).names d.scope name).mpr (Or.inr ⟨d, hd, ?_⟩)
  rw [Visited.Puts, isImport_of_isBlockScoped hblock, if_neg Bool.false_ne_true,
    outerTarget_of_isBlockScoped hblock]
  exact Or.inl ⟨rfl, hname⟩

/-- Seen from outside a node that opens a scope, the scopes inside of it are not there. -/
theorem scope_not_mem_chain {statements : List Tree} {d q v : Visited}
    (hd : d ∈ scriptVisits statements) (hq : q ∈ scriptVisits statements)
    (hv : v ∈ scriptVisits statements) (hopens : q.opens = true) (hinside : d.Inside q)
    (houtside : ¬ v.Inside q) : d.scope ∉ (ScopeTree.build statements).chain v.scope := by
  intro hmem
  have hgrown := grown_build statements
  have hself := mem_chain_self (hgrown.scope_lt d hd)
  have hle : q.inner ≤ d.scope :=
    le_of_mem_chain _ ((inner_mem_chain_iff hd hq hopens).mpr hinside)
  -- The scope of the declaration is that of some node around it.
  rcases (mem_chain_scope hd).mp hself with hroot | ⟨w, hw, hwopens, hdw, hscope⟩
  · have := hgrown.scope_lt_inner q hq hopens
    rw [hroot] at hle
    exact absurd (Nat.lt_of_lt_of_le this hle) (Nat.not_lt_zero _)
  · rw [← hscope] at hmem hle
    have hvw := (inner_mem_chain_iff hv hw hwopens).mp hmem
    rcases hdw.total hinside with heq | hwq | hqw
    · rw [Tree.eq_of_path_eq hw hq heq] at hvw
      exact houtside hvw
    · exact houtside (hvw.trans hwq)
    · -- A node around the construct has a smaller scope than the construct.
      have hlt := hgrown.scope_lt_inner q hq hopens
      have := le_of_mem_chain _ ((inner_mem_chain_iff hq hw hwopens).mpr hqw)
      omega

/-- Take a declaration by `let`, `const`, `class` or `function` inside a node that opens a scope, and
a place that is not inside this node. The declared name belongs to the scope that the declaration
stands in, but from the place it is not found there. If no other scope stands between the place and
an outer scope that declares the name, the name is found in the outer scope. -/
theorem block_names_stay_inside {statements : List Tree} {d q v : Visited} {name : String}
    (hd : d ∈ scriptVisits statements) (hblock : d.node.label.isBlockScoped)
    (hname : name ∈ d.declared) (hq : q ∈ scriptVisits statements) (hopens : q.opens = true)
    (hinside : d.Inside q) (hv : v ∈ scriptVisits statements) (houtside : ¬ v.Inside q) :
    let scopes := ScopeTree.build statements
    scopes.findOwner d.scope name = some d.scope
    ∧ scopes.findOwner v.scope name ≠ some d.scope
    ∧ ∀ outer ∈ scopes.chain v.scope, scopes.declaresAt name outer = true →
        (∀ k ∈ scopes.chain v.scope, outer < k → scopes.declaresAt name k = true → k = d.scope) →
        scopes.findOwner v.scope name = some outer := by
  intro scopes
  have hnot : d.scope ∉ scopes.chain v.scope :=
    scope_not_mem_chain hd hq hv hopens hinside houtside
  refine ⟨?_, ?_, ?_⟩
  · have hlt := (grown_build statements).scope_lt d hd
    refine findOwner_eq_some_iff.mpr ⟨mem_chain_self hlt, declaresAt_scope hd hblock hname, ?_⟩
    intro j hj hgt
    exact absurd (le_of_mem_chain _ hj) (by omega)
  · exact fun h => hnot (findOwner_eq_some_iff.mp h).1
  · intro outer hmem hdeclares hbetween
    refine findOwner_eq_some_iff.mpr ⟨hmem, hdeclares, fun k hk hlt => ?_⟩
    by_contra hk'
    have := hbetween k hk hlt (by simpa using hk')
    exact hnot (this ▸ hk)

/-- A block in a function holds a variable. The write behind the block goes to the variable of the
same name at the root. -/
theorem block_names_stay_inside_function :
    let statements := (programTree
      "let x = 0; function f() \x7b \x7b let x = 5; \x7d x++; \x7d".toList).statements
    let scopes := ScopeTree.build statements
    ∃ d ∈ scriptVisits statements, ∃ v ∈ scriptVisits statements,
      (d.declared = ["x"] ∧ scopes.findOwner d.scope "x" = some d.scope)
      ∧ v.node.writtenNames = ["x"] ∧ scopes.findOwner v.scope "x" ≠ some d.scope
      ∧ scopes.findOwner v.scope "x" = some rootId := by
  intro statements scopes
  obtain ⟨d, hd, ⟨hblock, hdeclared⟩, q, hq, ⟨hopens, hinside⟩, v, hv,
      ⟨hwritten, houtside⟩, honly⟩ :
      ∃ d ∈ scriptVisits statements, (d.node.label.isBlockScoped = true ∧ d.declared = ["x"])
      ∧ ∃ q ∈ scriptVisits statements, (q.opens = true ∧ d.Inside q)
      ∧ ∃ v ∈ scriptVisits statements, (v.node.writtenNames = ["x"] ∧ ¬ v.Inside q)
      ∧ (scopes.chain v.scope).filter (scopes.declaresAt "x") = [rootId] := by
    decide +kernel
  have hname : "x" ∈ d.declared := hdeclared ▸ List.mem_singleton_self _
  obtain ⟨hown, hne, houter⟩ :=
    block_names_stay_inside hd hblock hname hq hopens hinside hv houtside
  have hroot := List.mem_filter.mp (honly ▸ List.mem_singleton_self rootId)
  refine ⟨d, hd, v, hv, ⟨hdeclared, hown⟩, hwritten, hne, houter rootId hroot.1 hroot.2 ?_⟩
  intro k hk hlt hdeclares
  have hk := List.mem_singleton.mp (honly ▸ List.mem_filter.mpr ⟨hk, hdeclares⟩)
  exact absurd hk (by omega)

/-- The body of a switch and a static block of a class do not hold a variable. The write behind them
goes to the inner variable, and the variable at the root counts as not written. -/
theorem switch_and_static_names_leak :
    List.Forall (fun construct : Label × String =>
    let statements := (programTree construct.2.toList).statements
    let scopes := ScopeTree.build statements
    rootMutations scopes statements = []
    ∧ ∃ d ∈ scriptVisits statements, (d.node.label.isBlockScoped = true ∧ d.declared = ["x"])
      ∧ d.scope ≠ rootId
      ∧ ∃ q ∈ scriptVisits statements, (q.node.label = construct.1 ∧ d.Inside q)
        ∧ ∃ v ∈ scriptVisits statements, (v.node.writtenNames = ["x"] ∧ ¬ v.Inside q)
          ∧ scopes.findOwner v.scope "x" = some d.scope)
    [(.switchStatement,
        "let x = 0; function f() \x7b switch (1) \x7b case 1: let x = 5; \x7d x++; \x7d"),
      (.staticBlock,
        "let x = 0; function f() \x7b class A \x7b static \x7b let x = 5; \x7d \x7d x++; \x7d")] := by
  decide +kernel

end Reactive.Script
