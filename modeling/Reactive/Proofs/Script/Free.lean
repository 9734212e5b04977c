/-
  Free names of expressions.

  An identifier is used freely where no node around it declares its name. The free names of an
  expression are collected without regard to places: a name that some node introduces is left out
  wherever it is used. What is collected is therefore free at every place, in the order of first
  use; what is missed is introduced somewhere else in the expression.
-/
import Reactive.Proofs.Facts.Consistency
import Reactive.Proofs.Script.Binder
import Reactive.Script.Parse

namespace Reactive.Script

namespace Tree

/-! ## Uses of names -/

/-- The identifiers of a tree, each with its address, in document order. -/
def uses (t : Tree) : List (List Nat × String) :=
  t.fold fun label _ parts =>
    match label with
    | .identifier name => [([], name)]
    | _ => gather parts fun i part => part.2.map fun use => (i :: use.1, use.2)

/-- The identifiers that no node around them declares. -/
def freeUses (t : Tree) : List (List Nat × String) :=
  t.uses.filter fun use => (binder use.2 t use.1).isNone

theorem uses_node (l : Label) (s : Span) (cs : List Tree) : (node l s cs).uses = match l with
    | .identifier name => [([], name)]
    | _ => gather cs fun i c => c.uses.map fun use => (i :: use.1, use.2) := by
  rw [uses, fold_node]
  simp only [gather_map]
  rfl

theorem references_node (l : Label) (s : Span) (cs : List Tree) :
    (node l s cs).references = match l with
      | .identifier name => [name]
      | _ => cs.flatMap references := by
  rw [references, fold_node]
  simp only [List.flatMap_map]
  rfl

/-- The references of a tree are the names of its identifiers. -/
theorem map_snd_uses (t : Tree) : t.uses.map (·.2) = t.references := by
  induction t using ind with
  | node l s cs ih =>
    have hparts : (gather cs fun i c => c.uses.map fun use => (i :: use.1, use.2)).map (·.2)
        = cs.flatMap references := by
      rw [map_gather, ← gather_const references]
      refine gather_congr fun i c hc => ?_
      rw [List.map_map, ← ih c (List.mem_of_getElem? hc)]
      rfl
    rw [uses_node, references_node]
    split
    · rfl
    · exact hparts

/-! ## Names that are introduced -/

theorem bound_node (l : Label) (s : Span) (cs : List Tree) : (node l s cs).bound
    = (match l with
      | .binding name => [name]
      | _ => []) ++ cs.flatMap bound := by
  rw [bound, fold_node]
  simp only [List.flatMap_map]
  rfl

/-- The bound names are those that a binding stands for somewhere. -/
theorem mem_bound {t : Tree} {name : String} :
    name ∈ t.bound ↔ ∃ path s cs, t.at? path = some (node (.binding name) s cs) := by
  induction t using ind with
  | node l s cs ih =>
    rw [bound_node, List.mem_append, List.mem_flatMap]
    constructor
    · rintro (hlabel | ⟨c, hc, hname⟩)
      · split at hlabel
        · rw [List.mem_singleton] at hlabel
          exact ⟨[], s, cs, by rw [at?_nil, hlabel]⟩
        · cases hlabel
      · obtain ⟨i, hi⟩ := List.mem_iff_getElem?.mp hc
        obtain ⟨path, s', cs', hat⟩ := (ih c hc).mp hname
        exact ⟨i :: path, s', cs', by rw [at?_cons, hi]; exact hat⟩
    · rintro ⟨path, s', cs', hat⟩
      cases path with
      | nil =>
        obtain ⟨rfl, -, -⟩ := Tree.node.inj (Option.some.inj hat)
        exact .inl List.mem_cons_self
      | cons i path =>
        obtain ⟨c, hc, hat⟩ := exists_child_of_at? hat
        have hmem := List.mem_of_getElem? hc
        exact .inr ⟨c, hmem, (ih c hmem).mpr ⟨path, s', cs', hat⟩⟩

section

variable {name : String}

theorem mem_bound_of_part {l : Label} {s : Span} {cs : List Tree} (h : name ∈ cs.flatMap bound) :
    name ∈ (node l s cs).bound := by
  rw [bound_node]
  exact List.mem_append_right _ h

/-- Parts that are left out only take names away. -/
theorem mem_flatMap_bound_of_sublist {some all : List Tree} (h : some.Sublist all)
    (hname : name ∈ some.flatMap bound) : name ∈ all.flatMap bound := by
  obtain ⟨c, hc, hbound⟩ := List.mem_flatMap.mp hname
  exact List.mem_flatMap.mpr ⟨c, h.subset hc, hbound⟩

/-- What the parts of a kind of node introduce, the nodes introduce. -/
theorem mem_flatMap_bound_of_partsOf {l : Label} {cs : List Tree}
    (h : name ∈ (cs.flatMap (partsOf l)).flatMap bound) : name ∈ cs.flatMap bound := by
  rw [List.flatMap_assoc] at h
  obtain ⟨⟨l', s', cs'⟩, hc, hname⟩ := List.mem_flatMap.mp h
  refine List.mem_flatMap.mpr ⟨_, hc, mem_bound_of_part ?_⟩
  unfold partsOf at hname
  split at hname
  · exact hname
  · cases hname

theorem mem_bound_of_patternNames {t : Tree} (h : name ∈ t.patternNames) : name ∈ t.bound := by
  induction t using ind with
  | node l s cs ih =>
    have hparts (h : name ∈ (cs.flatMap introduced).map (·.1)) : name ∈ cs.flatMap bound := by
      rw [List.map_flatMap] at h
      obtain ⟨c, hc, hname⟩ := List.mem_flatMap.mp h
      exact List.mem_flatMap.mpr ⟨c, hc, ih c hc hname⟩
    rw [patternNames, introduced_node] at h
    split at h
    · rw [bound_node]
      exact List.mem_append_left _ h
    all_goals first
      | exact mem_bound_of_part (hparts h)
      | cases h

theorem mem_bound_of_declaratorNames {cs : List Tree} (h : name ∈ declaratorNames cs) :
    name ∈ cs.flatMap bound := by
  obtain ⟨d, hd, hname⟩ := List.mem_flatMap.mp h
  obtain ⟨p, hp, hname⟩ := List.mem_flatMap.mp hname
  have hparts : name ∈ ([d].flatMap (partsOf .declarator)).flatMap bound := by
    rw [List.flatMap_singleton]
    exact List.mem_flatMap.mpr ⟨p, List.mem_of_mem_take hp, mem_bound_of_patternNames hname⟩
  have hbound := mem_flatMap_bound_of_partsOf hparts
  rw [List.flatMap_singleton] at hbound
  exact List.mem_flatMap.mpr ⟨d, hd, hbound⟩

theorem mem_bound_of_className {cs : List Tree}
    (h : name ∈ (ScopeTree.className cs).map (·.1)) : name ∈ cs.flatMap bound := by
  rw [ScopeTree.className, List.map_flatMap] at h
  obtain ⟨c, hc, hname⟩ := List.mem_flatMap.mp h
  refine List.mem_flatMap.mpr ⟨c, hc, ?_⟩
  split at hname
  · rw [bound_node]
    exact List.mem_append_left _ hname
  · cases hname

/-- Patterns among the parts of a node introduce their names there. -/
theorem mem_bound_of_patterns {some all : List Tree} (h : some.Sublist all)
    (hname : name ∈ some.flatMap patternNames) : name ∈ all.flatMap bound := by
  obtain ⟨c, hc, hname⟩ := List.mem_flatMap.mp hname
  exact List.mem_flatMap.mpr ⟨c, h.subset hc, mem_bound_of_patternNames hname⟩

theorem mem_bound_of_lexicalNames {t : Tree} (h : name ∈ t.lexicalNames) : name ∈ t.bound := by
  induction t using ind with
  | node l s cs ih =>
    have hparts (h : name ∈ cs.flatMap lexicalNames) : name ∈ cs.flatMap bound := by
      obtain ⟨c, hc, hname⟩ := List.mem_flatMap.mp h
      exact List.mem_flatMap.mpr ⟨c, hc, ih c hc hname⟩
    rw [lexicalNames_node] at h
    split at h
    · cases h
    · exact mem_bound_of_part (mem_bound_of_declaratorNames h)
    · exact mem_bound_of_part (mem_bound_of_patterns (List.take_sublist 1 cs) h)
    · exact mem_bound_of_part (mem_bound_of_patterns (List.take_sublist 1 cs) h)
    · exact mem_bound_of_part (mem_bound_of_className h)
    · exact mem_bound_of_part (mem_bound_of_className h)
    · exact mem_bound_of_patternNames h
    · exact mem_bound_of_part (hparts h)
    · exact mem_bound_of_part (hparts h)
    · exact mem_bound_of_part (hparts h)
    · cases h

theorem mem_bound_of_varNames {t : Tree} (h : name ∈ t.varNames) : name ∈ t.bound := by
  induction t using ind with
  | node l s cs ih =>
    have hparts (h : name ∈ cs.flatMap varNames) : name ∈ cs.flatMap bound := by
      obtain ⟨c, hc, hname⟩ := List.mem_flatMap.mp h
      exact List.mem_flatMap.mpr ⟨c, hc, ih c hc hname⟩
    rw [varNames_node] at h
    split at h
    · exact mem_bound_of_part (mem_bound_of_declaratorNames h)
    all_goals first
      | exact mem_bound_of_part (hparts h)
      | cases h

theorem mem_bound_of_topNames {cs : List Tree} (h : name ∈ topNames cs) :
    name ∈ cs.flatMap bound := by
  rcases List.mem_append.mp h with h | h
  · obtain ⟨c, hc, hname⟩ := List.mem_flatMap.mp h
    exact List.mem_flatMap.mpr ⟨c, hc, mem_bound_of_lexicalNames hname⟩
  · obtain ⟨c, hc, hname⟩ := List.mem_flatMap.mp h
    exact List.mem_flatMap.mpr ⟨c, hc, mem_bound_of_varNames hname⟩

theorem mem_bound_of_lexical {some all : List Tree} (h : some.Sublist all)
    (hname : name ∈ some.flatMap lexicalNames) : name ∈ all.flatMap bound := by
  obtain ⟨c, hc, hname⟩ := List.mem_flatMap.mp hname
  exact List.mem_flatMap.mpr ⟨c, h.subset hc, mem_bound_of_lexicalNames hname⟩

/-- The body among the parts of a function introduces what is declared at its top. -/
theorem mem_bound_of_body {some all : List Tree} (h : some.Sublist all)
    (hname : name ∈ topNames (some.flatMap (partsOf .body))) : name ∈ all.flatMap bound :=
  mem_flatMap_bound_of_sublist h (mem_flatMap_bound_of_partsOf (mem_bound_of_topNames hname))

/-- What a node declares around one of its parts is introduced inside it. -/
theorem mem_bound_of_frame {l : Label} {cs : List Tree} {i : Nat} (h : name ∈ frame l cs i) :
    name ∈ cs.flatMap bound := by
  unfold frame at h
  split at h
  · exact mem_bound_of_topNames h
  · exact mem_bound_of_topNames h
  · exact mem_bound_of_lexical (List.Sublist.refl cs) h
  · rcases List.mem_append.mp h with h | h
    · rcases List.mem_append.mp h with h | h
      · split at h
        · exact mem_bound_of_patterns (List.take_sublist 1 cs) h
        · cases h
      · exact mem_bound_of_patterns ((List.take_sublist 1 _).trans (List.drop_sublist 1 cs)) h
    · split at h
      · exact mem_bound_of_body (List.drop_sublist 2 cs) h
      · cases h
  · rcases List.mem_append.mp h with h | h
    · exact mem_bound_of_patterns (List.take_sublist 1 cs) h
    · split at h
      · exact mem_bound_of_body (List.drop_sublist 1 cs) h
      · cases h
  · exact mem_bound_of_lexical (List.take_sublist 1 cs) h
  · exact mem_bound_of_lexical (List.take_sublist 1 cs) h
  · exact mem_bound_of_lexical (List.take_sublist 1 cs) h
  · exact mem_bound_of_patterns (List.take_sublist 1 cs) h
  · split at h
    · cases h
    · obtain ⟨c, hc, hname⟩ := List.mem_flatMap.mp h
      refine mem_flatMap_bound_of_sublist (List.drop_sublist 1 cs)
        (mem_flatMap_bound_of_partsOf (List.mem_flatMap.mpr ⟨c, hc, ?_⟩))
      exact mem_bound_of_lexicalNames hname
  · exact mem_bound_of_className h
  · cases h

/-- A name that is declared around a place of a tree is introduced in the tree. -/
theorem mem_bound_of_binder {t : Tree} {path q : List Nat} (h : binder name t path = some q) :
    name ∈ t.bound := by
  induction path generalizing t q with
  | nil => simp at h
  | cons i path ih =>
    obtain ⟨l, s, cs⟩ := t
    cases hc : cs[i]? with
    | none => simp [binder, hc] at h
    | some c =>
      rw [binder_cons name hc, Option.or_eq_some_iff, Option.map_eq_some_iff] at h
      rcases h with ⟨inner, hinner, -⟩ | ⟨-, hframe⟩
      · exact mem_bound_of_part (List.mem_flatMap.mpr ⟨c, List.mem_of_getElem? hc, ih hinner⟩)
      · split at hframe
        · rename_i hmem
          exact mem_bound_of_part (mem_bound_of_frame hmem)
        · cases hframe

end

/-! ## Free names -/

theorem mem_freeUses {t : Tree} {path : List Nat} {name : String} :
    (path, name) ∈ t.freeUses ↔ (path, name) ∈ t.uses ∧ binder name t path = none := by
  simp [freeUses]

/-- A name that is introduced nowhere in a tree is free wherever it is used. -/
theorem binder_eq_none {t : Tree} {name : String} (h : name ∉ t.bound) (path : List Nat) :
    binder name t path = none :=
  Option.eq_none_iff_forall_ne_some.mpr fun _ hq => h (mem_bound_of_binder hq)

/-- Without the names that are introduced somewhere, all uses are free ones. -/
theorem references_filter_bound (t : Tree) :
    (t.references.filter fun name => !t.bound.contains name)
      = (t.freeUses.map (·.2)).filter fun name => !t.bound.contains name := by
  rw [← map_snd_uses, List.filter_map, List.filter_map, freeUses, List.filter_filter]
  refine congrArg (List.map _) (List.filter_congr fun use _ => ?_)
  by_cases hbound : use.2 ∈ t.bound
  · simp [hbound]
  · simp [hbound, binder_eq_none hbound]

/-- The free names of an expression are, each once and in the order of their first free use, the
names that are used freely and that nothing in the expression introduces. Such a name is free at
every place where it is used; a name that is used freely is missed only where a binding of it
stands somewhere else in the expression, and if that is so of none, nothing is missed. -/
theorem freeNames_unbound (t : Tree) :
    t.freeNames = ((t.freeUses.map (·.2)).filter fun name => !t.bound.contains name).eraseDups
    ∧ t.freeNames.Nodup
    ∧ (∀ name ∈ t.freeNames, (∃ path, (path, name) ∈ t.uses)
      ∧ ∀ path, (path, name) ∈ t.uses → binder name t path = none)
    ∧ (∀ path name, (path, name) ∈ t.freeUses → name ∉ t.freeNames →
      ∃ q s cs, t.at? q = some (node (.binding name) s cs))
    ∧ ((∀ use ∈ t.freeUses, use.2 ∉ t.bound) →
      t.freeNames = (t.freeUses.map (·.2)).eraseDups) := by
  have hnames : t.freeNames
      = ((t.freeUses.map (·.2)).filter fun name => !t.bound.contains name).eraseDups := by
    rw [freeNames, references_filter_bound]
  have hmem {name : String} : name ∈ t.freeNames
      ↔ (∃ path, (path, name) ∈ t.freeUses) ∧ name ∉ t.bound := by
    rw [hnames, List.mem_eraseDups, List.mem_filter, List.mem_map]
    simp
  refine ⟨hnames, ?_, ?_, ?_, ?_⟩
  · rw [hnames]
    exact nodup_eraseDups _
  · intro name hname
    obtain ⟨⟨path, hpath⟩, hbound⟩ := hmem.mp hname
    exact ⟨⟨path, (mem_freeUses.mp hpath).1⟩, fun path _ => binder_eq_none hbound path⟩
  · intro path name hpath hname
    by_contra hnone
    exact hname (hmem.mpr ⟨⟨path, hpath⟩, fun hbound => hnone (mem_bound.mp hbound)⟩)
  · intro hfree
    rw [hnames, List.filter_eq_self.mpr]
    intro name hname
    obtain ⟨use, huse, rfl⟩ := List.mem_map.mp hname
    simp [hfree use huse]

end Tree

/-- The first operand uses `x` freely, the second one is a call of a function whose parameter is
`x`: the name is not among the free names. -/
theorem freeNames_misses_shadowed_elsewhere :
    (parseExpression "x + ((x) => x)(1)".toList).toOption.map
      (fun t => (t.freeUses.map (·.2), t.freeNames)) = some (["x"], []) := by
  decide +kernel

end Reactive.Script
