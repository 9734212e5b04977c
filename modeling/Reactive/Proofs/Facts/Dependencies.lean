/-
  Dependencies of plain assignments.

  The analysis goes through the plain assignments in source order and lets each one read the
  names that are reactive by then: those that ordinary statements write at the root, and the
  targets of the assignments before it. The set only grows, so that cutting the dependencies
  down to the finished set takes nothing away again, and the other declarations come too late to
  matter. Main statement: the dependencies of the plain assignments, one by one and in order,
  told by the script alone.
-/
import Reactive.Proofs.Facts.Consistency
import Reactive.Proofs.Facts.Writes
import Reactive.Proofs.Notify.Sites

namespace Reactive

open Script

/-! ## Writes at the root -/

namespace Script

/-- An update or an assignment writes to the variables of its target. -/
theorem Tree.mem_writtenNames_iff {e : Tree} {name : String} :
    name ∈ e.writtenNames ↔
      ∃ target, e.label.isWrite = true ∧ e.target? = some target ∧ target.WritesTo name := by
  constructor
  · intro h
    unfold Tree.writtenNames at h
    split at h
    · exact ⟨_, rfl, rfl, Tree.mem_targetNames_iff.mp h⟩
    · exact ⟨_, rfl, rfl, Tree.mem_targetNames_iff.mp h⟩
    · exact absurd h (by simp)
  · rintro ⟨target, hwrite, htarget, hname⟩
    rw [Tree.writtenNames_of_target? htarget hwrite]
    exact Tree.mem_targetNames_iff.mpr hname

/-- Somewhere in the statements stands an update or an assignment that writes to the name, and
there the name belongs to the root. -/
def WrittenAtRoot (statements : List Tree) (name : String) : Prop :=
  let scopes := ScopeTree.build statements
  ∃ t ∈ statements, ∃ path e target, t.at? path = some e
    ∧ e.label.isWrite = true ∧ e.target? = some target ∧ target.WritesTo name
    ∧ scopes.findOwner (scopes.scopeAt ScopeTree.rootId t path) name = some ScopeTree.rootId

/-- The walk over the statements finds just these names. -/
theorem mem_rootMutations_iff {statements : List Tree} {name : String} :
    name ∈ rootMutations (ScopeTree.build statements) statements
      ↔ WrittenAtRoot statements name := by
  rw [rootMutations, List.mem_eraseDups, List.mem_flatMap]
  constructor
  · rintro ⟨t, ht, hname⟩
    rw [Tree.rootWrites_eq_walked] at hname
    obtain ⟨stop, hstop, hname⟩ := List.mem_flatMap.mp hname
    obtain ⟨hwritten, hroot⟩ := List.mem_filter.mp hname
    obtain ⟨target, hwrite, htarget, hto⟩ := Tree.mem_writtenNames_iff.mp hwritten
    -- The cursor of a stop stands in the scope of its place.
    obtain ⟨hat, htree, hcurrent⟩ := Tree.at?_of_mem_walked hstop
    refine ⟨t, ht, stop.path, stop.node, target, hat, hwrite, htarget, hto, ?_⟩
    rw [ScopeCursor.resolvesToRoot, ScopeCursor.resolve, htree, hcurrent] at hroot
    exact beq_iff_eq.mp hroot
  · rintro ⟨t, ht, path, e, target, hat, hwrite, htarget, hto, hroot⟩
    have hwritten := Tree.mem_writtenNames_iff.mpr ⟨target, hwrite, htarget, hto⟩
    exact ⟨t, ht, mem_rootWrites_of_at? hat hwritten _ hroot⟩

instance (statements : List Tree) (name : String) : Decidable (WrittenAtRoot statements name) :=
  decidable_of_iff _ mem_rootMutations_iff

end Script

/-! ## The two kinds of declarations -/

/-- The plain assignments among the declarations. -/
def Facts.plainDeclarations (f : Facts) : List Declaration :=
  f.responsive.filter (·.style = .assignment)

/-- The declarations that are no plain assignments. -/
def Facts.otherDeclarations (f : Facts) : List Declaration :=
  f.responsive.filter (·.style = .statement)

/-- The bodies of the reactive declarations that are no plain assignments. -/
def otherBodies (statements : List Tree) : List Tree :=
  (reactiveBodies statements).filter fun b => (plainAssignment? b).isNone

namespace Progress

section

variable {source : List Char} {p : Progress} {bodies : List Tree} {d : Declaration}

theorem style_of_mem_assignments (hd : d ∈ (assignments source p bodies).1) :
    d.style = .assignment := by
  have horigin : d.origin ∈ (assignments source p bodies).1.map Declaration.origin :=
    List.mem_map_of_mem hd
  rw [origin_assignments] at horigin
  obtain ⟨b, -, hb⟩ := List.mem_map.mp horigin
  exact (Prod.mk.inj hb).1.symm

theorem style_of_mem_statements (hd : d ∈ (statements source p bodies).1) :
    d.style = .statement := by
  have horigin : d.origin ∈ (statements source p bodies).1.map Declaration.origin :=
    List.mem_map_of_mem hd
  rw [origin_statements] at horigin
  obtain ⟨b, -, hb⟩ := List.mem_map.mp horigin
  exact (Prod.mk.inj hb).1.symm

/-- A plain assignment depends on names that are reactive once all plain assignments are done. -/
theorem dependencies_subset_assignments (hd : d ∈ (assignments source p bodies).1) :
    d.dependencies ⊆ (assignments source p bodies).2.reactive := by
  intro x hx
  obtain ⟨k, hk⟩ := List.mem_iff_getElem?.mp hd
  obtain ⟨a, -, -, hreads⟩ := getElem?_assignments hk
  rw [mem_reactive_assignments]
  rcases ((hreads x).mp hx).2 with hstart | ⟨j, b, -, hb, hxb⟩
  · exact Or.inl hstart
  · exact Or.inr ⟨b, List.mem_of_getElem? hb, hxb⟩

/-- What the plain assignments depend on: the free names of the value that were reactive in the
beginning, or that a plain assignment before it assigns. -/
theorem dependencies_assignments :
    (assignments source p bodies).1.map Declaration.dependencies =
      (bodies.filterMap plainAssignment?).mapIdx fun k a => a.2.freeNames.filter fun x =>
        x ∈ p.reactive ∨ ∃ b ∈ (bodies.filterMap plainAssignment?).take k, x ∈ b.1.targetNames := by
  induction bodies generalizing p with
  | nil => rfl
  | cons body bodies ih =>
    cases hbody : plainAssignment? body with
    | none => rw [assignments_cons_none hbody, List.filterMap_cons_none hbody, ih]
    | some a =>
      rw [assignments_cons_some hbody, List.filterMap_cons_some hbody, List.map_cons,
        List.mapIdx_cons, ih]
      congr 1
      · refine List.filter_congr fun x _ => ?_
        simp
      · -- The targets of the first assignment have joined before the others are gone through.
        refine congrArg (List.mapIdx · _) (funext fun k => funext fun b => ?_)
        refine List.filter_congr fun x _ => ?_
        simp only [mem_reactive_foldl_assigned, List.take_succ_cons, List.mem_cons,
          exists_eq_or_imp, or_assoc]

/-- The other declarations are recorded each on its own: no one of them changes the names of the
component, and these are all that one looks at. -/
theorem statements_eq_map : (statements source p bodies).1
    = (bodies.filter fun b => (plainAssignment? b).isNone).map
      fun b => (statement source p b).1 := by
  induction bodies generalizing p with
  | nil => rfl
  | cons body bodies ih =>
    cases hbody : plainAssignment? body with
    | some a => rw [statements_cons_some hbody, List.filter_cons_of_neg (by simp [hbody]), ih]
    | none =>
      rw [statements_cons_none hbody, List.filter_cons_of_pos (by simp [hbody]), List.map_cons]
      exact congrArg _ ih

theorem globals_statements : (statements source p bodies).2.globals = p.globals :=
  statements_keeps (P := fun q => q.globals = p.globals) (fun _ _ h => h) rfl

end

section

variable (source : List Char) (script : List Tree) (referred : List String)

/-- Declarations are told apart by their style; cutting down their dependencies keeps it. -/
theorem filter_style_recorded (reactive : List String) (style : DeclarationStyle) :
    ((recorded source script).map (Declaration.restrict reactive)).filter (·.style = style)
      = ((recorded source script).filter (·.style = style)).map
        (Declaration.restrict reactive) := by
  rw [List.filter_map]
  rfl

theorem plain_recorded : (recorded source script).filter (·.style = .assignment)
    = (assignments source (Layered.start script) (reactiveBodies script)).1 := by
  rw [recorded, List.filter_append, List.filter_eq_self.mpr, List.filter_eq_nil_iff.mpr,
    List.append_nil]
  · intro d hd
    simp [style_of_mem_statements hd]
  · intro d hd
    simpa using style_of_mem_assignments hd

theorem other_recorded : (recorded source script).filter (·.style = .statement)
    = (statements source (halfway source script) (reactiveBodies script)).1 := by
  rw [recorded, List.filter_append, List.filter_eq_nil_iff.mpr, List.filter_eq_self.mpr,
    List.nil_append]
  · intro d hd
    simpa using style_of_mem_statements hd
  · intro d hd
    simp [style_of_mem_assignments hd]

/-- Cutting down to the reactive names of the end changes no plain assignment: what one depends on
was reactive before, and stays so. -/
theorem plainDeclarations_analyze :
    (analyzeStatements source script referred).plainDeclarations
      = (assignments source (Layered.start script) (reactiveBodies script)).1 := by
  let plain := (assignments source (Layered.start script) (reactiveBodies script)).1
  have hkept : ∀ d ∈ plain, d.restrict (final source script).reactive = d := by
    intro d hd
    have hfilter : d.dependencies.filter (final source script).reactive.contains
        = d.dependencies := by
      refine List.filter_eq_self.mpr fun x hx => ?_
      have hreactive : x ∈ (halfway source script).reactive :=
        dependencies_subset_assignments hd hx
      have hfinal : x ∈ (final source script).reactive := reactive_statements hreactive
      simpa using hfinal
    rw [Declaration.restrict, hfilter]
  show ((recorded source script).map _).filter (·.style = .assignment) = plain
  rw [filter_style_recorded, plain_recorded]
  exact (List.map_congr_left hkept).trans (List.map_id plain)

/-- The declarations that are no plain assignments, one for each such statement. -/
theorem otherDeclarations_analyze :
    (analyzeStatements source script referred).otherDeclarations
      = (otherBodies script).map fun b => (statement source (halfway source script) b).1.restrict
        (final source script).reactive := by
  have hsplit := filter_style_recorded source script (final source script).reactive .statement
  rw [other_recorded, statements_eq_map, List.map_map] at hsplit
  exact hsplit

/-- The dependencies of the plain assignments of a script. -/
theorem dependencies_plainDeclarations :
    (analyzeStatements source script referred).plainDeclarations.map Declaration.dependencies =
      (plainAssignments script).mapIdx fun k a => a.2.freeNames.filter fun x =>
        WrittenAtRoot (ordinaryStatements script) x
          ∨ ∃ b ∈ (plainAssignments script).take k, x ∈ b.1.targetNames := by
  rw [plainDeclarations_analyze, dependencies_assignments]
  refine congrArg (List.mapIdx · _) (funext fun k => funext fun a => ?_)
  refine List.filter_congr fun x _ => ?_
  have hstart : x ∈ (Layered.start script).reactive
      ↔ WrittenAtRoot (ordinaryStatements script) x := mem_rootMutations_iff
  simp only [hstart]
  rfl

end

end Progress

/-! ## The script of a component -/

/-- The dependencies of the plain assignments of a component are, one by one and in source order,
the free names of the value in the order of their first occurrence, as far as an ordinary statement
writes to them at the root or a plain assignment before has them among its targets. That is what
the analysis records when it comes to them, before it cuts the dependencies of all declarations
down to the reactive names of the end. The same is found in every script with the same ordinary
statements and the same plain assignments, whatever other declarations stand in it and wherever
they stand. -/
theorem plain_dependencies_exact (c : Component) :
    let plain := plainAssignments c.statements
    let ordinary := ordinaryStatements c.statements
    let dependencies (f : Facts) := f.plainDeclarations.map Declaration.dependencies
    dependencies (analyze c) = plain.mapIdx (fun k a => a.2.freeNames.filter fun x =>
        WrittenAtRoot ordinary x ∨ ∃ b ∈ plain.take k, x ∈ b.1.targetNames)
    ∧ (analyze c).plainDeclarations
      = (Progress.recorded c.scriptSource.toList c.statements).filter (·.style = .assignment)
    ∧ ∀ source script referred, ordinaryStatements script = ordinary →
        plainAssignments script = plain →
        dependencies (analyzeStatements source script referred) = dependencies (analyze c) := by
  intro plain ordinary dependencies
  have hexact : dependencies (analyze c) = _ :=
    Progress.dependencies_plainDeclarations c.scriptSource.toList c.statements
      c.template.referredNames
  refine ⟨hexact, ?_, ?_⟩
  · rw [Progress.plain_recorded]
    exact Progress.plainDeclarations_analyze _ _ _
  · intro source script referred hordinary hplain
    have hother : dependencies (analyzeStatements source script referred) = _ :=
      Progress.dependencies_plainDeclarations source script referred
    rw [hother, hexact, hordinary, hplain]

/-- `b` is assigned further down and `log` is written by a statement that is no plain assignment:
the first assignment depends on neither, although both are reactive in the end. -/
theorem plain_dependencies_chain :
    let c : Component := ⟨"", ⟨[], []⟩, some ⟨"let n = 0; let log; const f = () => n++; "
      ++ "$: a = n + b + log; $: if (a) log = b; $: b = a * n + a;", []⟩⟩
    (analyze c).plainDeclarations.map Declaration.dependencies = [["n"], ["a", "n"]]
      ∧ (analyze c).reactive = ["n", "a", "b", "log"] := by
  intro c
  refine ⟨(plain_dependencies_exact c).1.trans ?_, ?_⟩ <;> decide +kernel

end Reactive
