/-
  Scripts that stand elsewhere.

  What the analysis says about a script does not depend on where its text stands. Places enter in
  one way only: the scope of a node is found again by the span of the node. So all spans may be
  dropped but those of the nodes that open scopes, and these may be moved by any map that keeps
  different ones apart. Every step of the analysis commutes with such a move: names of patterns and
  targets, the building of scopes, look-ups, writes at the root, and the effects of a statement.
-/
import Reactive.Proofs.Notify.Announce
import Reactive.Proofs.Script.Free
import Reactive.Proofs.Script.Replay
import Mathlib.Data.Set.Function

namespace Reactive.Script

/-- The name of a place, without the place. -/
def unplaced (n : String × Span) : String × Span := (n.1, .none)

theorem map_fst_unplaced (names : List (String × Span)) :
    (names.map unplaced).map (·.1) = names.map (·.1) := by
  rw [List.map_map]
  rfl

namespace Tree

/-! ## Comparing trees -/

/-- Trees are compared node by node. -/
def same (t : Tree) : Tree → Bool :=
  t.fold fun l s parts other => l == other.label && s == other.span
    && (parts.length == other.children.length
      && (parts.zip other.children).all fun pair => pair.1.2 pair.2)

theorem same_node (l : Label) (s : Span) (cs : List Tree) (other : Tree) :
    (node l s cs).same other = (l == other.label && s == other.span
      && (cs.length == other.children.length
        && (cs.zip other.children).all fun pair => pair.1.same pair.2)) := by
  rw [same, fold_node, List.length_map, List.zip_map_left, List.all_map]
  rfl

theorem same_iff {t other : Tree} : t.same other = true ↔ t = other := by
  induction t using ind generalizing other with
  | node l s cs ih =>
    obtain ⟨l', s', cs'⟩ := other
    have hparts : (cs.length == cs'.length
        && (cs.zip cs').all fun pair => pair.1.same pair.2) = true ↔ cs = cs' := by
      induction cs generalizing cs' with
      | nil => cases cs' <;> simp
      | cons c cs ihcs =>
        cases cs' with
        | nil => simp
        | cons c' cs' =>
          have hrest := ihcs (fun c hc => ih c (List.mem_cons_of_mem _ hc)) cs'
          have hfirst : c.same c' = true ↔ c = c' := ih c List.mem_cons_self
          simp only [Bool.and_eq_true, beq_iff_eq] at hrest
          simp only [List.length_cons, List.zip_cons_cons, List.all_cons, Bool.and_eq_true,
            beq_iff_eq, Nat.add_right_cancel_iff, List.cons.injEq, hfirst, ← hrest]
          exact and_left_comm
    rw [same_node, Bool.and_eq_true, Bool.and_eq_true, beq_iff_eq, beq_iff_eq]
    simp only [label_node, span_node, children_node, hparts, node.injEq, and_assoc]

instance : DecidableEq Tree := fun _ _ => decidable_of_iff _ same_iff

/-! ## Moving -/

/-- The spans of the nodes that open scopes, in document order. -/
def scopeSpans (t : Tree) : List Span :=
  t.fold fun l s parts => (if l.opens then [s] else []) ++ parts.flatMap (·.2)

/-- The tree with the spans of the nodes that open scopes moved, and without all others. -/
def moved (ρ : Span → Span) (t : Tree) : Tree :=
  t.fold fun l s parts => node l (if l.opens then ρ s else .none) (parts.map (·.2))

theorem scopeSpans_node (l : Label) (s : Span) (cs : List Tree) :
    (node l s cs).scopeSpans = (if l.opens then [s] else []) ++ cs.flatMap scopeSpans := by
  rw [scopeSpans, fold_node, List.flatMap_map]
  rfl

section

variable (ρ : Span → Span)

theorem moved_node (l : Label) (s : Span) (cs : List Tree) :
    (node l s cs).moved ρ = node l (if l.opens then ρ s else .none) (cs.map (moved ρ)) := by
  rw [moved, fold_node, List.map_map]
  rfl

@[simp] theorem label_moved (t : Tree) : (t.moved ρ).label = t.label := by
  obtain ⟨l, s, cs⟩ := t
  rw [moved_node]
  rfl

@[simp] theorem children_moved (t : Tree) : (t.moved ρ).children = t.children.map (moved ρ) := by
  obtain ⟨l, s, cs⟩ := t
  rw [moved_node]
  rfl

@[simp] theorem isPatternTarget_moved (t : Tree) :
    (t.moved ρ).isPatternTarget = t.isPatternTarget := by
  rw [isPatternTarget, label_moved]
  rfl

/-! ## Names -/

theorem introduced_moved (t : Tree) : (t.moved ρ).introduced = t.introduced.map unplaced := by
  induction t using ind with
  | node l s cs ih =>
    have hparts : (cs.map (moved ρ)).flatMap introduced
        = (cs.flatMap introduced).map unplaced := by
      rw [List.flatMap_map, List.map_flatMap]
      exact List.flatMap_congr ih
    rw [moved_node, introduced_node, introduced_node]
    split
    · rfl
    all_goals first
      | exact hparts
      | rfl

theorem targetRoots_moved (t : Tree) : (t.moved ρ).targetRoots = t.targetRoots.map unplaced := by
  induction t using ind with
  | node l s cs ih =>
    have hparts : (cs.map (moved ρ)).map targetRoots
        = (cs.map targetRoots).map (List.map unplaced) := by
      rw [List.map_map, List.map_map]
      exact List.map_congr_left ih
    rw [moved_node, targetRoots_node, targetRoots_node, hparts]
    -- Only an identifier has a place of its own, and it opens no scope.
    generalize cs.map targetRoots = parts
    cases l with
    | identifier name => rfl
    | arrayTarget | objectTarget => exact List.map_flatten.symm
    | targetProperty computed => rcases parts with _ | ⟨a, _ | ⟨b, _ | ⟨c, parts⟩⟩⟩ <;> rfl
    | _ => cases parts <;> rfl

@[simp] theorem targetNames_moved (t : Tree) : (t.moved ρ).targetNames = t.targetNames := by
  rw [targetNames, targetRoots_moved, map_fst_unplaced]
  rfl

@[simp] theorem writtenNames_moved (t : Tree) : (t.moved ρ).writtenNames = t.writtenNames := by
  obtain ⟨l, s, cs⟩ := t
  rw [moved_node]
  cases hl : l.isWrite with
  | false => rw [writtenNames_eq_nil hl, writtenNames_eq_nil hl]
  | true =>
    cases cs with
    | nil => cases l <;> rfl
    | cons c cs => rw [List.map_cons, writtenNames_cons hl, writtenNames_cons hl, targetNames_moved]

theorem references_moved (t : Tree) : (t.moved ρ).references = t.references := by
  induction t using ind with
  | node l s cs ih =>
    rw [moved_node, references_node, references_node]
    split
    · rfl
    · rw [List.flatMap_map]
      exact List.flatMap_congr ih

theorem bound_moved (t : Tree) : (t.moved ρ).bound = t.bound := by
  induction t using ind with
  | node l s cs ih =>
    rw [moved_node, bound_node, bound_node, List.flatMap_map]
    exact congrArg _ (List.flatMap_congr ih)

@[simp] theorem freeNames_moved (t : Tree) : (t.moved ρ).freeNames = t.freeNames := by
  rw [freeNames, freeNames, references_moved, bound_moved]

end

end Tree

/-! ## Scopes -/

/-- The scope without the places of its declarations. -/
def Scope.unplaced (s : Scope) : Scope :=
  { s with declarations := s.declarations.map fun d => (d.1, ⟨d.2.kind, .none⟩) }

namespace Scope

@[simp] theorem declares_unplaced (s : Scope) (name : String) :
    s.unplaced.declares name = s.declares name := by
  rw [declares, unplaced, List.any_map]
  rfl

theorem names_unplaced (s : Scope) : s.unplaced.names = s.names := by
  rw [names, unplaced, List.map_map]
  rfl

theorem unplaced_declare (s : Scope) (name : String) (site : Site) :
    (s.declare name site).unplaced = s.unplaced.declare name ⟨site.kind, .none⟩ := by
  unfold declare
  rw [declares_unplaced]
  split
  · rfl
  · simp [unplaced]

theorem unplaced_declareIn (names : List (String × Span)) (kind : DeclarationKind) (s : Scope) :
    (ScopeTree.declareIn names kind s).unplaced
      = ScopeTree.declareIn (names.map Script.unplaced) kind s.unplaced := by
  induction names generalizing s with
  | nil => rfl
  | cons n names ih =>
    have hstep := ih (s.declare n.1 ⟨kind, n.2⟩)
    rw [unplaced_declare] at hstep
    exact hstep

end Scope

namespace ScopeTree

section

variable (ρ : Span → Span)

/-- The scopes without the places of declarations, owned by moved nodes. -/
def moved (t : ScopeTree) : ScopeTree :=
  ⟨t.scopes.map Scope.unplaced, t.owners.map fun o => (ρ o.1, o.2)⟩

variable (t : ScopeTree)

theorem scope?_moved (id : Nat) : (t.moved ρ).scope? id = (t.scope? id).map Scope.unplaced :=
  List.getElem?_map

@[simp] theorem chain_moved (id : Nat) : (t.moved ρ).chain id = t.chain id := by
  induction id using Nat.strongRecOn with
  | _ id ih =>
    rw [chain, chain, scope?_moved]
    cases t.scope? id with
    | none => rfl
    | some s =>
      have hparent : s.unplaced.parent = s.parent := rfl
      dsimp only [Option.map_some]
      rw [hparent]
      cases s.parent with
      | none => rfl
      | some p =>
        dsimp only
        split
        · rw [ih p ‹_›]
        · rfl

@[simp] theorem declaresAt_moved (name : String) (id : Nat) :
    (t.moved ρ).declaresAt name id = t.declaresAt name id := by
  rw [declaresAt, declaresAt, scope?_moved]
  cases t.scope? id with
  | none => rfl
  | some s => exact s.declares_unplaced name

@[simp] theorem findOwner_moved (id : Nat) (name : String) :
    (t.moved ρ).findOwner id name = t.findOwner id name := by
  rw [findOwner, findOwner, chain_moved]
  exact congrArg (List.find? · _) (funext fun k => declaresAt_moved ρ t name k)

@[simp] theorem hoistTarget_moved (id : Nat) :
    (t.moved ρ).hoistTarget id = t.hoistTarget id := by
  have hhoists : (t.moved ρ).hoistsAt = t.hoistsAt := by
    funext k
    rw [hoistsAt, hoistsAt, scope?_moved]
    cases t.scope? k <;> rfl
  rw [hoistTarget, hoistTarget, chain_moved, hhoists]

theorem names_root_moved : (t.moved ρ).root.names = t.root.names := by
  unfold root moved
  cases t.scopes with
  | nil => rfl
  | cons s scopes => exact s.names_unplaced

/-! ## Building -/

/-- Groups of names without their places. -/
def unplacedGroups (groups : List (List (String × Span) × DeclarationKind)) :
    List (List (String × Span) × DeclarationKind) :=
  groups.map fun g => (g.1.map unplaced, g.2)

theorem declared_moved (id : Nat) (names : List (String × Span)) (kind : DeclarationKind) :
    (t.declared id names kind).moved ρ = (t.moved ρ).declared id (names.map unplaced) kind := by
  rw [declared_eq, declared_eq]
  refine congrArg (ScopeTree.mk · _) (List.ext_getElem? fun j => ?_)
  simp only [moved, List.getElem?_map, List.getElem?_modify]
  cases t.scopes[j]? with
  | none => rfl
  | some s => by_cases hj : id = j <;> simp [hj, Scope.unplaced_declareIn]

theorem declaredAll_moved (id : Nat)
    (groups : List (List (String × Span) × DeclarationKind)) :
    (t.declaredAll id groups).moved ρ = (t.moved ρ).declaredAll id (unplacedGroups groups) := by
  induction groups generalizing t with
  | nil => rfl
  | cons g groups ih =>
    have hstep := ih (t.declared id g.1 g.2)
    rw [declared_moved] at hstep
    exact hstep

theorem opened_moved (kind : ScopeKind) (parent : Nat) (owner : Span) :
    (t.opened kind parent owner).moved ρ = (t.moved ρ).opened kind parent (ρ owner) := by
  simp [opened, moved, Scope.unplaced]

theorem className_moved (cs : List Tree) :
    className (cs.map (Tree.moved ρ)) = (className cs).map unplaced := by
  rw [className, className, List.flatMap_map, List.map_flatMap]
  refine List.flatMap_congr fun c _ => ?_
  obtain ⟨l, s, cs⟩ := c
  rw [Tree.moved_node]
  cases l <;> rfl

/-- The pattern of a declarator introduces the same names. -/
theorem introduced_headD_moved (cs : List Tree) :
    ((cs.map (Tree.moved ρ)).headD .absent).introduced
      = (cs.headD .absent).introduced.map unplaced := by
  cases cs with
  | nil => rfl
  | cons c cs => exact c.introduced_moved ρ

theorem outerNames_moved (l : Label) (cs : List Tree) :
    outerNames l (cs.map (Tree.moved ρ)) = unplacedGroups (outerNames l cs) := by
  by_cases hvariables : ∃ kind, l = .variables kind
  · obtain ⟨kind, rfl⟩ := hvariables
    show (cs.map (Tree.moved ρ)).map _ = (cs.map _).map _
    rw [List.map_map, List.map_map]
    refine List.map_congr_left fun d _ => ?_
    simp only [Function.comp_apply, Tree.children_moved, introduced_headD_moved]
  · cases l with
    | function form async generator wrapped quiet =>
      cases form <;> cases cs <;> simp [outerNames, unplacedGroups, Tree.introduced_moved]
    | classNode form => cases form <;> simp [outerNames, unplacedGroups, className_moved]
    | _ => simp_all [outerNames, unplacedGroups]

theorem innerNames_moved (l : Label) (cs : List Tree) :
    innerNames l (cs.map (Tree.moved ρ)) = unplacedGroups (innerNames l cs) := by
  cases l with
  | function form async generator wrapped quiet =>
    rcases cs with _ | ⟨name, _ | ⟨parameters, cs⟩⟩ <;>
      cases form <;> simp [innerNames, unplacedGroups, Tree.introduced_moved]
  | arrow async concise wrapped quiet =>
    cases cs <;> simp [innerNames, unplacedGroups, Tree.introduced_moved]
  | catchClause => cases cs <;> simp [innerNames, unplacedGroups, Tree.introduced_moved]
  | _ => simp [innerNames, unplacedGroups]

theorem outerTarget_moved (l : Label) (current : Nat) :
    (t.moved ρ).outerTarget l current = t.outerTarget l current := by
  unfold outerTarget
  split
  · exact hoistTarget_moved ρ t current
  · rfl

/-- A moved node is entered like the node. -/
theorem entered_moved (l : Label) (s : Span) (cs : List Tree) (current : Nat) :
    (t.moved ρ).entered l (if l.opens then ρ s else .none) (cs.map (Tree.moved ρ)) current
      = ((t.entered l s cs current).1, (t.entered l s cs current).2.moved ρ) := by
  have houter : (t.moved ρ).declaredAll ((t.moved ρ).outerTarget l current)
      (outerNames l (cs.map (Tree.moved ρ)))
      = (t.declaredAll (t.outerTarget l current) (outerNames l cs)).moved ρ := by
    rw [outerTarget_moved, outerNames_moved, declaredAll_moved]
  unfold entered
  rw [houter, innerNames_moved]
  cases hkind : l.scopeKind? with
  | none => rfl
  | some kind =>
    have hopens : l.opens = true := by rw [Label.opens, hkind]; rfl
    have hlength (u : ScopeTree) : (u.moved ρ).scopes.length = u.scopes.length :=
      List.length_map _
    dsimp only
    rw [if_pos hopens, hlength, ← opened_moved, ← declaredAll_moved]

/-- A moved tree adds the moved scopes. -/
theorem visit_moved (tree : Tree) (current : Nat) :
    (tree.moved ρ).fold visitNode current (t.moved ρ)
      = (tree.fold visitNode current t).moved ρ := by
  induction tree using Tree.ind generalizing t current with
  | node l s cs ih =>
    by_cases hl : l.isImport
    · have hintroduced := (Tree.node l s cs).introduced_moved ρ
      rw [Tree.moved_node] at hintroduced ⊢
      rw [visit_import hl, visit_import hl, hintroduced, declared_moved]
    · rw [Bool.not_eq_true] at hl
      rw [Tree.moved_node, visit_node hl, visit_node hl, entered_moved]
      dsimp only
      generalize (t.entered l s cs current).1 = inner
      generalize (t.entered l s cs current).2 = u
      -- The parts are visited one after the other.
      induction cs generalizing u with
      | nil => rfl
      | cons c cs ihcs =>
        rw [List.map_cons, List.foldl_cons, List.foldl_cons, ih c List.mem_cons_self]
        exact ihcs (fun c hc => ih c (List.mem_cons_of_mem _ hc)) _

end

/-- The scopes of moved statements are the moved scopes. -/
theorem build_moved (ρ : Span → Span) (statements : List Tree) :
    build (statements.map (Tree.moved ρ)) = (build statements).moved ρ := by
  have hfrom (t : ScopeTree) :
      (statements.map (Tree.moved ρ)).foldl (fun t s => s.fold visitNode rootId t) (t.moved ρ)
        = (statements.foldl (fun t s => s.fold visitNode rootId t) t).moved ρ := by
    induction statements generalizing t with
    | nil => rfl
    | cons s statements ih =>
      rw [List.map_cons, List.foldl_cons, List.foldl_cons, visit_moved]
      exact ih _
  exact hfrom start

/-! ## Finding scopes again -/

/-- A map that keeps spans apart leads to the same scopes. -/
theorem scopeOf?_moved {ρ : Span → Span} {t : ScopeTree} {s : Span}
    (h : ∀ o ∈ t.owners, ρ o.1 = ρ s → o.1 = s) : (t.moved ρ).scopeOf? (ρ s) = t.scopeOf? s := by
  unfold scopeOf? moved
  rw [List.find?_map]
  have hfind : t.owners.find? ((·.1 == ρ s) ∘ fun o => (ρ o.1, o.2))
      = t.owners.find? (·.1 == s) := by
    refine List.find?_congr fun o ho => ?_
    -- Here the map has to be injective: a span that was none of the owners stays none of them.
    rw [Function.comp_apply, Bool.eq_iff_iff, beq_iff_eq, beq_iff_eq]
    exact ⟨h o ho, congrArg ρ⟩
  rw [hfind, Option.map_map]
  rfl

end ScopeTree

namespace Tree

/-- Scopes are opened by nodes of the tree that are no parts of imports. -/
theorem openSpans_subset (t : Tree) : t.openSpans ⊆ t.scopeSpans := by
  induction t using ind with
  | node l s cs ih =>
    rw [openSpans_node, scopeSpans_node]
    split
    · exact List.nil_subset _
    · refine List.append_subset.mpr ⟨List.subset_append_left _ _, fun x hx => ?_⟩
      obtain ⟨c, hc, hx⟩ := List.mem_flatMap.mp hx
      exact List.mem_append_right _ (List.mem_flatMap.mpr ⟨c, hc, ih c hc hx⟩)

end Tree

/-- Every scope of a script is owned by a node of the script. -/
theorem owners_build {statements : List Tree} {o : Span × Nat}
    (h : o ∈ (ScopeTree.build statements).owners) : o.1 ∈ statements.flatMap Tree.scopeSpans := by
  have hopen : o.1 ∈ (scriptTree statements).openSpans := by
    rw [(grown_build statements).owners] at h
    rcases List.mem_append.mp h with h | h
    · obtain ⟨v, hv, rfl⟩ := List.mem_map.mp (List.mem_reverse.mp h)
      rw [← Tree.openSpans_eq (scriptTree statements) ScopeTree.rootId .start]
      exact List.mem_map_of_mem (f := fun v : Visited => v.node.span) hv
    · cases h
  have hscope := Tree.openSpans_subset _ hopen
  rwa [scriptTree, Tree.scopeSpans_node] at hscope

namespace ScopeCursor

/-- The cursor over the moved scopes. -/
def moved (ρ : Span → Span) (c : ScopeCursor) : ScopeCursor := ⟨c.tree.moved ρ, c.stack⟩

@[simp] theorem resolve_moved (ρ : Span → Span) (c : ScopeCursor) (name : String) :
    (c.moved ρ).resolve name = c.resolve name := ScopeTree.findOwner_moved ρ c.tree c.current name

theorem inside_moved {ρ : Span → Span} {c : ScopeCursor} {l : Label} {s : Span}
    (h : l.opens = true → ∀ o ∈ c.tree.owners, ρ o.1 = ρ s → o.1 = s) :
    (c.moved ρ).inside l (if l.opens then ρ s else .none) = (c.inside l s).moved ρ := by
  unfold inside
  cases hkind : l.scopeKind? with
  | none => rfl
  | some kind =>
    have hopens : l.opens = true := by rw [Label.opens, hkind]; rfl
    have hscope : (c.moved ρ).tree.scopeOf? (ρ s) = c.tree.scopeOf? s :=
      ScopeTree.scopeOf?_moved (h hopens)
    dsimp only
    rw [if_pos hopens, enter?, enter?, hscope]
    cases c.tree.scopeOf? s <;> rfl

end ScopeCursor

/-! ## Walking -/

section

-- A walk looks up spans of its own nodes among those that own scopes; the map keeps them apart.
variable {ρ : Span → Span} {spans : List Span}

/-- A walk goes into a moved node as into the node. -/
theorem inside_moved_of_injOn (hinj : Set.InjOn ρ {s | s ∈ spans}) {l : Label} {s : Span}
    {cs : List Tree} (hspans : (Tree.node l s cs).scopeSpans ⊆ spans) {cursor : ScopeCursor}
    (howners : ∀ o ∈ cursor.tree.owners, o.1 ∈ spans) :
    (cursor.moved ρ).inside l (if l.opens then ρ s else .none) = (cursor.inside l s).moved ρ := by
  refine ScopeCursor.inside_moved fun hopens o ho heq => ?_
  refine hinj (howners o ho) (hspans ?_) heq
  rw [Tree.scopeSpans_node, if_pos hopens]
  exact List.mem_append_left _ List.mem_cons_self

theorem scopeSpans_part_subset {l : Label} {s : Span} {cs : List Tree}
    (hspans : (Tree.node l s cs).scopeSpans ⊆ spans) {c : Tree} (hc : c ∈ cs) :
    c.scopeSpans ⊆ spans := by
  rw [Tree.scopeSpans_node] at hspans
  exact fun x hx => hspans (List.mem_append_right _ (List.mem_flatMap.mpr ⟨c, hc, hx⟩))

/-- The writes of a moved tree at the root. -/
theorem rootWrites_moved (hinj : Set.InjOn ρ {s | s ∈ spans}) {t : Tree}
    (hspans : t.scopeSpans ⊆ spans) (cursor : ScopeCursor)
    (howners : ∀ o ∈ cursor.tree.owners, o.1 ∈ spans) :
    (t.moved ρ).rootWrites (cursor.moved ρ) = t.rootWrites cursor := by
  induction t using Tree.ind generalizing cursor with
  | node l s cs ih =>
    have hwritten := (Tree.node l s cs).writtenNames_moved ρ
    rw [Tree.moved_node] at hwritten ⊢
    rw [Tree.rootWrites_node, Tree.rootWrites_node, hwritten,
      inside_moved_of_injOn hinj hspans howners, List.flatMap_map]
    congr 1
    · refine List.filter_congr fun name _ => ?_
      rw [ScopeCursor.resolvesToRoot, ScopeCursor.resolvesToRoot, ScopeCursor.resolve_moved]
    · refine List.flatMap_congr fun c hc => ?_
      exact ih c hc (scopeSpans_part_subset hspans hc) _ (by rwa [ScopeCursor.tree_inside])

theorem isGlobalAt_moved (globals : List String) (cursor : ScopeCursor) :
    isGlobalAt globals (cursor.moved ρ) = isGlobalAt globals cursor := by
  funext name
  rw [isGlobalAt, isGlobalAt, ScopeCursor.resolve_moved]

theorem part_moved (u : Usage) (l : Label) (cs : List Tree) (i : Nat) :
    u.part l (cs.map (Tree.moved ρ)) i = u.part l cs i := by
  have hhead : ((cs.map (Tree.moved ρ)).headD .absent).isPatternTarget
      = (cs.headD .absent).isPatternTarget := by
    cases cs with
    | nil => rfl
    | cons c cs => exact c.isPatternTarget_moved ρ
  unfold Usage.part Usage.first
  rw [hhead]

/-- The effects of a moved tree. -/
theorem found_moved (found : Effects → List String) (hnone : found .none = [])
    (happend : ∀ a b : Effects, found (a.append b) = found a ++ found b) (globals : List String)
    (hinj : Set.InjOn ρ {s | s ∈ spans}) {t : Tree} (hspans : t.scopeSpans ⊆ spans)
    (cursor : ScopeCursor) (howners : ∀ o ∈ cursor.tree.owners, o.1 ∈ spans) (usage : Usage) :
    found ((t.moved ρ).effects globals (cursor.moved ρ) usage)
      = found (t.effects globals cursor usage) := by
  induction t using Tree.ind generalizing cursor usage with
  | node l s cs ih =>
    by_cases hl : ∃ name, l = .identifier name
    · obtain ⟨name, rfl⟩ := hl
      rw [Tree.moved_node, Tree.effects, Tree.fold_node, Tree.effects, Tree.fold_node]
      dsimp only
      rw [isGlobalAt_moved]
    · have hname : ∀ name, l ≠ .identifier name := fun name heq => hl ⟨name, heq⟩
      have hwritten := (Tree.node l s cs).writtenNames_moved ρ
      rw [Tree.moved_node] at hwritten ⊢
      have hnode := @found_node found hnone happend globals l hname
      rw [hnode, hnode, hwritten, isGlobalAt_moved, inside_moved_of_injOn hinj hspans howners,
        gather_map]
      refine congrArg _ (gather_congr fun i c hc => ?_)
      have hmem := List.mem_of_getElem? hc
      rw [part_moved]
      exact ih c hmem (scopeSpans_part_subset hspans hmem) _ (by rwa [ScopeCursor.tree_inside]) _

end

/-! ## Statements -/

/-- Moved statements write the same names at the root. -/
theorem rootMutations_moved {ρ : Span → Span} (statements : List Tree)
    (hinj : Set.InjOn ρ {s | s ∈ statements.flatMap Tree.scopeSpans}) :
    rootMutations (ScopeTree.build (statements.map (Tree.moved ρ))) (statements.map (Tree.moved ρ))
      = rootMutations (ScopeTree.build statements) statements := by
  rw [rootMutations, rootMutations, ScopeTree.build_moved, List.flatMap_map]
  refine congrArg List.eraseDups (List.flatMap_congr fun t ht => ?_)
  exact rootWrites_moved hinj (fun s hs => List.mem_flatMap.mpr ⟨t, ht, hs⟩)
    (.start (ScopeTree.build statements)) fun o ho => owners_build ho

/-- A moved statement has the same effects. -/
theorem statementEffects_moved {ρ : Span → Span} (globals : List String) (statement : Tree)
    (hinj : Set.InjOn ρ {s | s ∈ statement.scopeSpans}) :
    statementEffects globals (statement.moved ρ) = statementEffects globals statement := by
  let scopes := ScopeTree.build [statement]
  have hbuild : ScopeTree.build [statement.moved ρ] = scopes.moved ρ :=
    ScopeTree.build_moved ρ [statement]
  have howners : ∀ o ∈ scopes.owners, o.1 ∈ statement.scopeSpans := by
    intro o ho
    simpa using owners_build ho
  have hfound (found : Effects → List String) (hnone : found .none = [])
      (happend : ∀ a b : Effects, found (a.append b) = found a ++ found b) :
      found ((statement.moved ρ).effects globals (.start (scopes.moved ρ)) .plain)
        = found (statement.effects globals (.start scopes) .plain) :=
    found_moved found hnone happend globals hinj (List.Subset.refl _) (.start scopes) howners .plain
  rw [statementEffects, statementEffects, hbuild, hfound Effects.writes rfl fun _ _ => rfl,
    hfound Effects.reads rfl fun _ _ => rfl]

/-! ## Scripts that are the same but for their places -/

/-- The statements are the same but for where they stand: a map that keeps the nodes that open
scopes apart takes these nodes of the one list to those of the other. -/
def Relocated (ts ts' : List Tree) : Prop :=
  ∃ ρ : Span → Span, Set.InjOn ρ {s | s ∈ ts.flatMap Tree.scopeSpans}
    ∧ ts.map (Tree.moved ρ) = ts'.map (Tree.moved id)

/-- A span of a text that began at one place and begins at another one now. -/
def Span.shifted (start start' : Nat) (s : Span) : Span :=
  ⟨s.start + start' - start, s.stop + start' - start⟩

/-- The nodes that open scopes stand in the second list where a text with the first one in it has
them after it has moved. -/
def Shifted (start start' : Nat) (ts ts' : List Tree) : Prop :=
  (∀ s ∈ ts.flatMap Tree.scopeSpans, ∀ s' ∈ ts.flatMap Tree.scopeSpans,
    s.shifted start start' = s'.shifted start start' → s = s')
  ∧ ts.map (Tree.moved (Span.shifted start start')) = ts'.map (Tree.moved id)

instance (start start' : Nat) (ts ts' : List Tree) : Decidable (Shifted start start' ts ts') :=
  inferInstanceAs (Decidable (_ ∧ _))

namespace Relocated

variable {ts ts' : List Tree} {b b' : Tree}

/-- Statements whose nodes all move by as much are the same but for where they stand. -/
theorem of_shifted {start start' : Nat} (h : Shifted start start' ts ts') : Relocated ts ts' :=
  ⟨Span.shifted start start', fun s hs s' hs' => h.1 s hs s' hs', h.2⟩

/-- The scopes are the same but for the places of declarations. -/
theorem scopes_eq (h : Relocated ts ts') : (ScopeTree.build ts).scopes.map Scope.unplaced
    = (ScopeTree.build ts').scopes.map Scope.unplaced := by
  obtain ⟨ρ, -, hmoved⟩ := h
  have hbuild := congrArg ScopeTree.build hmoved
  rw [ScopeTree.build_moved, ScopeTree.build_moved] at hbuild
  exact congrArg ScopeTree.scopes hbuild

theorem rootNames_eq (h : Relocated ts ts') :
    (ScopeTree.build ts).root.names = (ScopeTree.build ts').root.names := by
  obtain ⟨ρ, -, hmoved⟩ := h
  rw [← ScopeTree.names_root_moved ρ, ← ScopeTree.names_root_moved id (ScopeTree.build ts'),
    ← ScopeTree.build_moved, ← ScopeTree.build_moved, hmoved]

theorem rootMutations_eq (h : Relocated ts ts') :
    rootMutations (ScopeTree.build ts) ts = rootMutations (ScopeTree.build ts') ts' := by
  obtain ⟨ρ, hinj, hmoved⟩ := h
  rw [← rootMutations_moved ts hinj, ← rootMutations_moved ts' (Set.injOn_id _), hmoved]

theorem exists_moved_eq (h : Relocated [b] [b']) :
    ∃ ρ, Set.InjOn ρ {s | s ∈ b.scopeSpans} ∧ b.moved ρ = b'.moved id := by
  obtain ⟨ρ, hinj, hmoved⟩ := h
  rw [List.flatMap_singleton] at hinj
  exact ⟨ρ, hinj, List.singleton_inj.mp hmoved⟩

theorem statementEffects_eq (h : Relocated [b] [b']) (globals : List String) :
    statementEffects globals b = statementEffects globals b' := by
  obtain ⟨ρ, hinj, hmoved⟩ := h.exists_moved_eq
  rw [← statementEffects_moved globals b hinj,
    ← statementEffects_moved globals b' (Set.injOn_id _), hmoved]

end Relocated

end Reactive.Script
