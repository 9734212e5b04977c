/-
  The facts about a script fit together.

  The analysis grows its sets in four ways: names that the script declares at the root, names that
  ordinary statements write, targets of plain assignments, and names that other declarations write.
  Each way keeps the same invariant: the names of the component are the declared ones followed by
  the hoisted ones, without overlap, and every reactive name is one of them. Declarations are
  recorded in the order in which the analysis goes through them, so that there is one for every
  reactive statement of the script.
-/
import Reactive.Proofs.Facts.Layers
import Reactive.Proofs.Script.Lookup
import Mathlib.Data.List.Nodup

namespace Reactive

open Script

namespace Script

/-! ## Written names -/

/-- A list of names without its repetitions has none. -/
theorem nodup_eraseDups (names : List String) : names.eraseDups.Nodup := by
  cases names with
  | nil => exact List.nodup_nil
  | cons name names =>
    rw [List.eraseDups_cons]
    refine List.nodup_cons.mpr ⟨?_, nodup_eraseDups _⟩
    rw [List.mem_eraseDups]
    simp
termination_by names.length
decreasing_by exact Nat.lt_succ_of_le (List.length_filter_le _ _)

theorem Tree.rootWrites_node (l : Label) (s : Span) (cs : List Tree) (cursor : ScopeCursor) :
    (node l s cs).rootWrites cursor = (node l s cs).writtenNames.filter cursor.resolvesToRoot
      ++ cs.flatMap fun c => c.rootWrites (cursor.inside l s) := by
  rw [rootWrites, fold_node, List.map_map, List.flatMap_map]
  simp only [Function.comp_def, List.map_id']
  rfl

/-- What a tree writes at the root is declared at the root. -/
theorem mem_root_names_of_mem_rootWrites {t : Tree} {cursor : ScopeCursor} {name : String}
    (h : name ∈ t.rootWrites cursor) : name ∈ cursor.tree.root.names := by
  induction t using Tree.ind generalizing cursor with
  | node l s cs ih =>
    rw [Tree.rootWrites_node] at h
    rcases List.mem_append.mp h with h | h
    · have hroot : cursor.resolve name = some ScopeTree.rootId := by
        simpa [ScopeCursor.resolvesToRoot] using (List.mem_filter.mp h).2
      exact ScopeTree.mem_root_names hroot
    · obtain ⟨c, hc, hname⟩ := List.mem_flatMap.mp h
      have hinner := ih c hc hname
      rwa [ScopeCursor.tree_inside] at hinner

/-! ## Effects, node by node -/

section

-- Writes and reads are collected alike: nothing from no effect, and one after the other.
variable (found : Effects → List String)

theorem found_concat (hnone : found .none = [])
    (happend : ∀ a b : Effects, found (a.append b) = found a ++ found b) (es : List Effects) :
    found (Effects.concat es) = es.flatMap found := by
  have hfold : ∀ first : Effects,
      found (es.foldl Effects.append first) = found first ++ es.flatMap found := by
    induction es with
    | nil => simp
    | cons e es ih =>
      intro first
      rw [List.foldl_cons, ih, happend, List.flatMap_cons, List.append_assoc]
  rw [Effects.concat, hfold, hnone, List.nil_append]

/-- The usage of a part of a node. -/
def Usage.part (u : Usage) (l : Label) (cs : List Tree) (i : Nat) : Usage :=
  if i = 0 then u.first l cs else u.other

/-- What is found in the effects of a node that is no variable: its own writes, and what is found in
its parts with the cursor inside the node. -/
theorem found_node (hnone : found .none = [])
    (happend : ∀ a b : Effects, found (a.append b) = found a ++ found b) (globals : List String)
    {l : Label} (hl : ∀ name, l ≠ .identifier name) (s : Span) (cs : List Tree)
    (cursor : ScopeCursor) (usage : Usage) :
    found ((Tree.node l s cs).effects globals cursor usage)
      = found ⟨(Tree.node l s cs).writtenNames.filter (isGlobalAt globals cursor), []⟩
        ++ gather cs fun i c =>
          found (c.effects globals (cursor.inside l s) (usage.part l cs i)) := by
  rw [Tree.effects, Tree.fold_node]
  split
  · exact absurd rfl (hl _)
  · rw [happend]
    simp only [List.map_map, Function.comp_def, List.map_id']
    refine congrArg _ ?_
    -- The first part is used in another way than the others.
    cases cs with
    | nil => exact hnone
    | cons c cs =>
      have hothers : (gather cs fun i d =>
          found (d.effects globals (cursor.inside l s) (usage.part l (c :: cs) (i + 1))))
          = cs.flatMap fun d => found (d.effects globals (cursor.inside l s) usage.other) :=
        gather_const fun d => found (Tree.effects globals d (cursor.inside l s) usage.other)
      rw [List.map_cons]
      dsimp only
      rw [found_concat found hnone happend, List.flatMap_cons, List.map_map, List.flatMap_map,
        gather_cons, hothers]
      rfl

end

/-- A statement writes only names of the component. -/
theorem mem_globals_of_mem_writes {globals : List String} {t : Tree} {cursor : ScopeCursor}
    {usage : Usage} {name : String} (h : name ∈ (t.effects globals cursor usage).writes) :
    name ∈ globals := by
  induction t using Tree.ind generalizing cursor usage with
  | node l s cs ih =>
    by_cases hl : ∃ x, l = .identifier x
    · -- A variable writes nothing.
      obtain ⟨x, rfl⟩ := hl
      rw [Tree.effects, Tree.fold_node] at h
      dsimp only at h
      split at h <;> exact absurd h (by simp [Effects.none])
    · have hnode := found_node Effects.writes rfl (fun _ _ => rfl) globals
        (fun x heq => hl ⟨x, heq⟩) s cs cursor usage
      rw [hnode] at h
      rcases List.mem_append.mp h with hown | hparts
      · have hglobal := (List.mem_filter.mp hown).2
        rw [isGlobalAt, Bool.and_eq_true] at hglobal
        simpa using hglobal.2
      · obtain ⟨i, c, hc, hname⟩ := mem_gather.mp hparts
        exact ih c (List.mem_of_getElem? hc) hname

end Script

/-- Where a declaration comes from: how it is written, its text and its place. -/
def Declaration.origin (d : Declaration) : DeclarationStyle × String × Span :=
  (d.style, d.code, d.span)

namespace Progress

section

variable {source : List Char} {declared : List String} {p : Progress}

/-! ## Sets of names -/

/-- The sets fit together, given the names that the script declares. -/
structure Consistent (declared : List String) (p : Progress) : Prop where
  globals_eq : p.globals = declared ++ p.hoisted
  reactive_subset : p.reactive ⊆ p.globals
  hoisted_nodup : p.hoisted.Nodup
  hoisted_new : declared.Disjoint p.hoisted

theorem Consistent.assigned (h : p.Consistent declared) (name : String) :
    (p.assigned name).Consistent declared := by
  have hreactive : addName p.reactive name ⊆ addName p.globals name := by
    intro x hx
    rw [mem_addName] at hx ⊢
    exact hx.imp_left (h.reactive_subset ·)
  unfold Progress.assigned
  by_cases hknown : name ∈ p.globals
  · -- A name that is known already is not hoisted.
    have hcontains : p.globals.contains name = true := by simpa using hknown
    refine ⟨?_, hreactive, ?_, ?_⟩
    · simp only [addName, hcontains, if_true]
      exact h.globals_eq
    · simpa only [hcontains, if_true] using h.hoisted_nodup
    · simpa only [hcontains, if_true] using h.hoisted_new
  · -- A new name joins the names of the component and the hoisted ones at once.
    have hcontains : p.globals.contains name = false := by simpa using hknown
    rw [h.globals_eq, List.mem_append, not_or] at hknown
    refine ⟨?_, hreactive, ?_, ?_⟩
    · simp only [addName, hcontains, Bool.false_eq_true, if_false]
      rw [h.globals_eq, List.append_assoc]
    · simp only [hcontains, Bool.false_eq_true, if_false]
      refine List.nodup_append.mpr ⟨h.hoisted_nodup, List.nodup_singleton name, ?_⟩
      rintro x hx y hy rfl
      exact hknown.2 (List.mem_singleton.mp hy ▸ hx)
    · simp only [hcontains, Bool.false_eq_true, if_false]
      intro x hx hx'
      rcases List.mem_append.mp hx' with hx' | hx'
      · exact h.hoisted_new hx hx'
      · exact hknown.1 (List.mem_singleton.mp hx' ▸ hx)

theorem Consistent.statement (h : p.Consistent declared) (body : Tree) :
    (statement source p body).2.Consistent declared := by
  refine ⟨h.globals_eq, ?_, h.hoisted_nodup, h.hoisted_new⟩
  intro x hx
  rcases mem_addNames.mp hx with hx | hx
  · exact h.reactive_subset hx
  · exact mem_globals_of_mem_writes (List.mem_eraseDups.mp hx)

/-! ## Declarations -/

/-- The names of a declaration are listed once each, and those that it writes are reactive. -/
structure Listed (reactive : List String) (d : Declaration) : Prop where
  assignees_nodup : d.assignees.Nodup
  dependencies_nodup : d.dependencies.Nodup
  assignees_subset : d.assignees ⊆ reactive

theorem listed_of_mem_assignments {bodies : List Tree} {d : Declaration}
    (hd : d ∈ (assignments source p bodies).1) :
    Listed (assignments source p bodies).2.reactive d := by
  induction bodies generalizing p with
  | nil => exact absurd hd (by simp [assignments])
  | cons body bodies ih =>
    cases hbody : plainAssignment? body with
    | none =>
      rw [assignments_cons_none hbody] at hd ⊢
      exact ih hd
    | some a =>
      rw [assignments_cons_some hbody] at hd ⊢
      rcases List.mem_cons.mp hd with rfl | hd
      · -- The targets become reactive here, and the assignments behind only add names.
        refine ⟨nodup_eraseDups _, (nodup_eraseDups _).filter _, fun x hx => ?_⟩
        rw [mem_reactive_assignments, mem_reactive_foldl_assigned]
        exact Or.inl (Or.inr hx)
      · exact ih hd

theorem listed_of_mem_statements {bodies : List Tree} {d : Declaration}
    (hd : d ∈ (statements source p bodies).1) :
    Listed (statements source p bodies).2.reactive d := by
  induction bodies generalizing p with
  | nil => exact absurd hd (by simp [statements])
  | cons body bodies ih =>
    cases hbody : plainAssignment? body with
    | some a =>
      rw [statements_cons_some hbody] at hd ⊢
      exact ih hd
    | none =>
      rw [statements_cons_none hbody] at hd ⊢
      rcases List.mem_cons.mp hd with rfl | hd
      · refine ⟨nodup_eraseDups _, nodup_eraseDups _, fun x hx => ?_⟩
        exact reactive_statements (mem_addNames.mpr (Or.inr hx))
      · exact ih hd

/-- There is one declaration for every plain assignment, in their order. -/
theorem origin_assignments (bodies : List Tree) :
    (assignments source p bodies).1.map Declaration.origin
      = (bodies.filter fun b => (plainAssignment? b).isSome).map
        fun b => (.assignment, slice source b.span, b.span) := by
  induction bodies generalizing p with
  | nil => rfl
  | cons body bodies ih =>
    cases hbody : plainAssignment? body with
    | none => rw [assignments_cons_none hbody, List.filter_cons_of_neg (by simp [hbody]), ih]
    | some a =>
      rw [assignments_cons_some hbody, List.filter_cons_of_pos (by simp [hbody]), List.map_cons,
        List.map_cons, ih]
      rfl

/-- There is one declaration for every other statement, in their order. -/
theorem origin_statements (bodies : List Tree) :
    (statements source p bodies).1.map Declaration.origin
      = (bodies.filter fun b => (plainAssignment? b).isNone).map
        fun b => (.statement, slice source b.span, b.span) := by
  induction bodies generalizing p with
  | nil => rfl
  | cons body bodies ih =>
    cases hbody : plainAssignment? body with
    | some a => rw [statements_cons_some hbody, List.filter_cons_of_neg (by simp [hbody]), ih]
    | none =>
      rw [statements_cons_none hbody, List.filter_cons_of_pos (by simp [hbody]), List.map_cons,
        List.map_cons, ih]
      rfl

end

/-! ## Both rounds -/

section

variable (source : List Char) (script : List Tree)

/-- What is known after the plain assignments of a script. -/
def halfway : Progress := (assignments source (Layered.start script) (reactiveBodies script)).2

/-- What is known after all declarations of a script. -/
def final : Progress := (statements source (halfway source script) (reactiveBodies script)).2

/-- The declarations of a script in the order in which the analysis goes through them. -/
def recorded : List Declaration :=
  (assignments source (Layered.start script) (reactiveBodies script)).1
    ++ (statements source (halfway source script) (reactiveBodies script)).1

theorem consistent_start :
    (Layered.start script).Consistent
      (ScopeTree.build (ordinaryStatements script)).root.names := by
  refine ⟨(List.append_nil _).symm, ?_, List.nodup_nil, by simp [Layered.start]⟩
  -- At the start, the reactive names are those that ordinary statements write at the root.
  intro x hx
  obtain ⟨t, -, hx⟩ := List.mem_flatMap.mp (List.mem_eraseDups.mp hx)
  exact mem_root_names_of_mem_rootWrites hx

theorem consistent_final :
    (final source script).Consistent
      (ScopeTree.build (ordinaryStatements script)).root.names := by
  refine statements_keeps (fun p body h => h.statement body) ?_
  exact assignments_keeps (fun p name h => h.assigned name) (consistent_start script)

theorem listed_of_mem_recorded {d : Declaration} (hd : d ∈ recorded source script) :
    Listed (final source script).reactive d := by
  rcases List.mem_append.mp hd with hd | hd
  · have hlisted := listed_of_mem_assignments hd
    exact { hlisted with
      assignees_subset := fun x hx => reactive_statements (hlisted.assignees_subset hx) }
  · exact listed_of_mem_statements hd

/-- The facts are what is known in the end, with the dependencies cut down to reactive names. -/
theorem analyzeStatements_eq (referred : List String) :
    analyzeStatements source script referred =
      let last := final source script
      let responsive := (recorded source script).map (Declaration.restrict last.reactive)
      { globals := last.globals
        reactive := last.reactive
        referred := referred
        assignees := (responsive.flatMap (·.assignees)).eraseDups
        hoisted := last.hoisted
        responsive := responsive
        scopes := ScopeTree.build (ordinaryStatements script) } := rfl

end

end Progress

/-! ## The facts of a component -/

/-- The names in some facts fit together. -/
structure Facts.Consistent (f : Facts) : Prop where
  reactive_subset : f.reactive ⊆ f.globals
  /-- The names of the component are declared at the root, or hoisted. -/
  globals_eq : f.globals = f.scopes.root.names ++ f.hoisted
  /-- No name is both. -/
  hoisted_new : f.scopes.root.names.Disjoint f.hoisted
  hoisted_nodup : f.hoisted.Nodup
  assignees_nodup : ∀ d ∈ f.responsive, d.assignees.Nodup
  assignees_subset : ∀ d ∈ f.responsive, d.assignees ⊆ f.reactive
  dependencies_nodup : ∀ d ∈ f.responsive, d.dependencies.Nodup
  dependencies_subset : ∀ d ∈ f.responsive, d.dependencies ⊆ f.reactive
  /-- The assignees are those of the declarations. -/
  mem_assignees : ∀ x, x ∈ f.assignees ↔ ∃ d ∈ f.responsive, x ∈ d.assignees

/-- The names in the facts of every component fit together, and there is one declaration for every
reactive statement of its script: first for the plain assignments and then for all others, both in
source order. -/
theorem analyze_consistent (c : Component) :
    let f := analyze c
    let bodies := reactiveBodies c.statements
    let origin (style : DeclarationStyle) (body : Tree) :=
      (style, slice c.scriptSource.toList body.span, body.span)
    f.Consistent
      ∧ f.responsive.map Declaration.origin
        = (bodies.filter fun b => (plainAssignment? b).isSome).map (origin .assignment)
          ++ (bodies.filter fun b => (plainAssignment? b).isNone).map (origin .statement) := by
  intro f bodies origin
  let source := c.scriptSource.toList
  have hf : f = _ := Progress.analyzeStatements_eq source c.statements c.template.referredNames
  have hlast := Progress.consistent_final source c.statements
  have hlisted : ∀ d ∈ f.responsive,
      Progress.Listed f.reactive d ∧ d.dependencies ⊆ f.reactive := by
    intro d hd
    rw [hf] at hd ⊢
    -- What was recorded has only its dependencies cut down.
    obtain ⟨e, he, rfl⟩ := List.mem_map.mp hd
    have he := Progress.listed_of_mem_recorded source c.statements he
    refine ⟨{ he with dependencies_nodup := he.dependencies_nodup.filter _ }, fun x hx => ?_⟩
    simpa using (List.mem_filter.mp hx).2
  refine ⟨?_, ?_⟩
  · exact {
      reactive_subset := hlast.reactive_subset
      globals_eq := hlast.globals_eq
      hoisted_new := hlast.hoisted_new
      hoisted_nodup := hlast.hoisted_nodup
      assignees_nodup := fun d hd => (hlisted d hd).1.assignees_nodup
      assignees_subset := fun d hd => (hlisted d hd).1.assignees_subset
      dependencies_nodup := fun d hd => (hlisted d hd).1.dependencies_nodup
      dependencies_subset := fun d hd => (hlisted d hd).2
      mem_assignees := fun x => mem_assignees source c.statements _ }
  · -- Cutting down the dependencies of a declaration leaves its origin alone.
    rw [hf]
    dsimp only
    rw [List.map_map]
    show (Progress.recorded source c.statements).map Declaration.origin = _
    rw [Progress.recorded, List.map_append, Progress.origin_assignments,
      Progress.origin_statements]

end Reactive
