/-
  The order of reactive statements.

  Plain assignments are gone through before all other declarations, and these see nothing of one
  another: the names of the component are complete by then, and the reactive names are looked at
  only when all declarations are done. Main statement: two components with the same ordinary
  statements and the same plain assignments, and with the same other declarations in whatever order
  and wherever they stand, have the same facts.
-/
import Reactive.Proofs.Facts.Dependencies
import Reactive.Proofs.Script.Moved
import Mathlib.Data.List.Forall2

namespace Reactive

open Script

/-! ## Plain assignments by their names -/

/-- The bodies of the plain assignments among the reactive declarations. -/
def plainBodies (statements : List Tree) : List Tree :=
  (reactiveBodies statements).filter fun b => (plainAssignment? b).isSome

/-- What a plain assignment assigns and reads. -/
def plainNames? (body : Tree) : Option (List String × List String) :=
  (plainAssignment? body).map fun a => (a.1.targetNames, a.2.freeNames)

/-- A plain assignment is an expression statement with just an assignment in it. -/
theorem plainAssignment?_eq_none {l : Label} {s : Span} {cs : List Tree}
    (h : ∀ s' target value, l = .expressionStatement →
      cs ≠ [.node (.assign .plain) s' [target, value]]) :
    plainAssignment? (.node l s cs) = none := by
  unfold plainAssignment?
  split
  · rename_i heq
    obtain ⟨rfl, -, rfl⟩ := Tree.node.inj heq
    exact absurd rfl (h _ _ _ rfl)
  · rfl

theorem plainNames?_moved (ρ : Span → Span) (body : Tree) :
    plainNames? (body.moved ρ) = plainNames? body := by
  by_cases hplain : ∃ s s' target value,
      body = .node .expressionStatement s [.node (.assign .plain) s' [target, value]]
  · obtain ⟨s, s', target, value, rfl⟩ := hplain
    have hmember : isMember (target.moved ρ) = isMember target := by
      rw [isMember, Tree.label_moved]
      rfl
    simp only [Tree.moved_node, List.map_cons, List.map_nil, plainNames?, plainAssignment?, hmember]
    split
    · rfl
    · simp
  · -- Moving keeps labels and numbers of parts, so that nothing becomes a plain assignment.
    obtain ⟨l, s, cs⟩ := body
    have hnone : plainAssignment? (.node l s cs) = none := by
      refine plainAssignment?_eq_none fun s' target value hl hcs => hplain ?_
      exact ⟨s, s', target, value, by rw [hl, hcs]⟩
    have hmoved : plainAssignment? ((Script.Tree.node l s cs).moved ρ) = none := by
      rw [Tree.moved_node]
      refine plainAssignment?_eq_none fun s' target value hl hcs => hplain ?_
      obtain ⟨⟨l', s', cs'⟩, rfl, hassign⟩ := List.map_eq_singleton_iff.mp hcs
      rw [Tree.moved_node] at hassign
      obtain ⟨rfl, -, hparts⟩ := Tree.node.inj hassign
      obtain ⟨target, rest, rfl, -, hrest⟩ := List.map_eq_cons_iff.mp hparts
      obtain ⟨value, rfl, -⟩ := List.map_eq_singleton_iff.mp hrest
      exact ⟨s, s', target, value, by rw [hl]⟩
    rw [plainNames?, plainNames?, hnone, hmoved]

/-- What is known about a declaration besides its text and its place. -/
def Declaration.summary (d : Declaration) : DeclarationStyle × List String × List String :=
  (d.style, d.assignees, d.dependencies)

namespace Progress

/-- Going through plain assignments by their names alone. -/
def named : Progress → List (List String × List String) →
    List (DeclarationStyle × List String × List String) × Progress
  | p, [] => ([], p)
  | p, (targets, reads) :: rest =>
    let after := named (targets.foldl assigned p) rest
    ((.assignment, targets, reads.filter p.reactive.contains) :: after.1, after.2)

/-- Plain assignments are gone through by their names. -/
theorem assignments_named (source : List Char) (p : Progress) (bodies : List Tree) :
    ((assignments source p bodies).1.map Declaration.summary, (assignments source p bodies).2)
      = named p (bodies.filterMap plainNames?) := by
  induction bodies generalizing p with
  | nil => rfl
  | cons body bodies ih =>
    cases hbody : plainAssignment? body with
    | none =>
      have hnames : plainNames? body = none := by rw [plainNames?, hbody]; rfl
      rw [assignments_cons_none hbody, List.filterMap_cons_none hnames, ih]
    | some a =>
      have hnames : plainNames? body = some (a.1.targetNames, a.2.freeNames) := by
        rw [plainNames?, hbody]; rfl
      rw [assignments_cons_some hbody, List.filterMap_cons_some hnames, named, ← ih]
      rfl

/-- The reactive names after the other declarations: those before, and all that these write. -/
theorem mem_reactive_statements {source : List Char} {p : Progress} {bodies : List Tree}
    {x : String} : x ∈ (statements source p bodies).2.reactive ↔ x ∈ p.reactive
      ∨ ∃ b ∈ bodies.filter (fun b => (plainAssignment? b).isNone),
        x ∈ (statementEffects p.globals b).writes := by
  induction bodies generalizing p with
  | nil => simp [statements]
  | cons body bodies ih =>
    cases hbody : plainAssignment? body with
    | some a => rw [statements_cons_some hbody, List.filter_cons_of_neg (by simp [hbody]), ih]
    | none =>
      rw [statements_cons_none hbody, List.filter_cons_of_pos (by simp [hbody])]
      dsimp only
      -- The names of the component are still the same when the others are gone through.
      rw [ih, List.exists_mem_cons_iff, ← or_assoc]
      exact or_congr_left mem_addNames

theorem hoisted_statements {source : List Char} {p : Progress} {bodies : List Tree} :
    (statements source p bodies).2.hoisted = p.hoisted :=
  statements_keeps (P := fun q => q.hoisted = p.hoisted) (fun _ _ h => h) rfl

/-! ## Reactive names are listed once -/

theorem nodup_addName {names : List String} (h : names.Nodup) (name : String) :
    (addName names name).Nodup := by
  unfold addName
  split
  · exact h
  · rename_i hnew
    refine List.nodup_append.mpr ⟨h, List.nodup_singleton name, ?_⟩
    rintro x hx y hy rfl
    rw [List.mem_singleton.mp hy] at hx
    exact hnew (by simpa using hx)

theorem nodup_addNames {names : List String} (h : names.Nodup) (more : List String) :
    (addNames names more).Nodup := by
  unfold addNames
  induction more generalizing names with
  | nil => exact h
  | cons name more ih => exact ih (nodup_addName h name)

theorem nodup_reactive_final (source : List Char) (script : List Tree) :
    (final source script).reactive.Nodup := by
  refine statements_keeps (P := fun p => p.reactive.Nodup) (fun p _ h => nodup_addNames h _) ?_
  refine assignments_keeps (P := fun p => p.reactive.Nodup) (fun p _ h => nodup_addName h _) ?_
  exact nodup_eraseDups _

end Progress

/-- Assignees come from plain assignments, or from the effects of the other declarations. -/
theorem mem_assignees_cases {source : List Char} {script : List Tree} {referred : List String}
    {x : String} : x ∈ (analyzeStatements source script referred).assignees ↔
      (∃ d ∈ (analyzeStatements source script referred).plainDeclarations.map Declaration.summary,
        x ∈ d.2.1)
      ∨ ∃ b ∈ otherBodies script,
        x ∈ (statementEffects (Progress.halfway source script).globals b).writes := by
  have hother : (∃ b ∈ otherBodies script,
        x ∈ (statementEffects (Progress.halfway source script).globals b).writes)
      ↔ ∃ d ∈ (analyzeStatements source script referred).otherDeclarations, x ∈ d.assignees := by
    rw [Progress.otherDeclarations_analyze]
    simp only [List.mem_map, exists_exists_and_eq_and]
    rfl
  rw [mem_assignees, hother, Facts.plainDeclarations, Facts.otherDeclarations]
  simp only [List.mem_map, exists_exists_and_eq_and, List.mem_filter, decide_eq_true_eq,
    ← exists_or]
  -- A declaration is of one style or of the other.
  refine exists_congr fun d => ?_
  cases hstyle : d.style <;> simp [Declaration.summary]

/-! ## Reordered scripts -/

/-- The bodies are the same one by one, but for where they stand. -/
abbrev RelocatedBodies (bodies bodies' : List Tree) : Prop :=
  List.Forall₂ (fun b b' => Relocated [b] [b']) bodies bodies'

/-- The scripts have the same ordinary statements and the same plain assignments, in the same order,
and the same other declarations in some order. All are compared but for where they stand, and
declarations may stand anywhere among the statements. -/
structure Reordered (script script' : List Tree) : Prop where
  ordinary : Relocated (ordinaryStatements script) (ordinaryStatements script')
  plain : RelocatedBodies (plainBodies script) (plainBodies script')
  others : ∃ bodies, bodies.Perm (otherBodies script) ∧ RelocatedBodies bodies (otherBodies script')

/-- What does not depend on places is the same for all bodies. -/
theorem RelocatedBodies.map_eq {bodies bodies' : List Tree} (h : RelocatedBodies bodies bodies')
    {β : Type} {g : Tree → β} (hg : ∀ b b', Relocated [b] [b'] → g b = g b') :
    bodies.map g = bodies'.map g := by
  rw [← List.forall₂_eq_eq_eq, List.forall₂_map_left_iff, List.forall₂_map_right_iff]
  exact h.imp hg

namespace Reordered

variable {script script' : List Tree}

theorem start_eq (h : Reordered script script') : Layered.start script = Layered.start script' := by
  simp only [Layered.start, h.ordinary.rootNames_eq, h.ordinary.rootMutations_eq]

/-- The plain assignments have the same names. -/
theorem plainNames_eq (h : Reordered script script') :
    (reactiveBodies script).filterMap plainNames?
      = (reactiveBodies script').filterMap plainNames? := by
  have hbodies (statements : List Tree) : (reactiveBodies statements).filterMap plainNames?
      = ((plainBodies statements).map plainNames?).filterMap id := by
    rw [plainBodies, List.filterMap_map, List.filterMap_filter]
    refine List.filterMap_congr fun b _ => ?_
    cases hb : plainAssignment? b <;> simp [plainNames?, hb]
  have hnames : (plainBodies script).map plainNames? = (plainBodies script').map plainNames? := by
    refine h.plain.map_eq fun b b' hb => ?_
    obtain ⟨ρ, -, hmoved⟩ := hb.exists_moved_eq
    rw [← plainNames?_moved ρ b, hmoved, plainNames?_moved]
  rw [hbodies, hbodies, hnames]

/-- Both scripts are in the same state when the plain assignments are done, and record the same. -/
theorem named_eq (h : Reordered script script') :
    Progress.named (Layered.start script) ((reactiveBodies script).filterMap plainNames?)
      = Progress.named (Layered.start script')
        ((reactiveBodies script').filterMap plainNames?) := by
  rw [h.start_eq, h.plainNames_eq]

/-- The other declarations have the same effects, in some order. -/
theorem effects_perm (h : Reordered script script') (globals : List String) :
    ((otherBodies script).map (statementEffects globals)).Perm
      ((otherBodies script').map (statementEffects globals)) := by
  obtain ⟨bodies, hperm, hsame⟩ := h.others
  rw [← hsame.map_eq fun b b' hb => hb.statementEffects_eq globals]
  exact (hperm.map _).symm

/-- The same names are written by some declaration that is no plain assignment. -/
theorem exists_writes_iff (h : Reordered script script') (globals : List String) (x : String) :
    (∃ b ∈ otherBodies script, x ∈ (statementEffects globals b).writes)
      ↔ ∃ b ∈ otherBodies script', x ∈ (statementEffects globals b).writes := by
  have hmem (statements : List Tree) :
      (∃ b ∈ otherBodies statements, x ∈ (statementEffects globals b).writes)
        ↔ ∃ e ∈ (otherBodies statements).map (statementEffects globals), x ∈ e.writes := by
    simp only [List.mem_map, exists_exists_and_eq_and]
  rw [hmem, hmem]
  exact exists_congr fun e => and_congr_left' (h.effects_perm globals).mem_iff

section

variable (source source' : List Char)

theorem halfway_eq (h : Reordered script script') :
    Progress.halfway source script = Progress.halfway source' script' := by
  have hnamed := h.named_eq
  rw [← Progress.assignments_named source, ← Progress.assignments_named source'] at hnamed
  exact (Prod.mk.inj hnamed).2

theorem mem_reactive_iff (h : Reordered script script') (x : String) :
    x ∈ (Progress.final source script).reactive
      ↔ x ∈ (Progress.final source' script').reactive := by
  rw [Progress.final, Progress.final, Progress.mem_reactive_statements,
    Progress.mem_reactive_statements, h.halfway_eq source source']
  exact or_congr_right (h.exists_writes_iff _ x)

/-- Only reactive names join after that. -/
theorem globals_eq (h : Reordered script script') (referred : List String) :
    (analyzeStatements source script referred).globals
      = (analyzeStatements source' script' referred).globals := by
  show (Progress.final source script).globals = (Progress.final source' script').globals
  rw [Progress.final, Progress.final, Progress.globals_statements, Progress.globals_statements,
    h.halfway_eq source source']

theorem hoisted_eq (h : Reordered script script') (referred : List String) :
    (analyzeStatements source script referred).hoisted
      = (analyzeStatements source' script' referred).hoisted := by
  show (Progress.final source script).hoisted = (Progress.final source' script').hoisted
  rw [Progress.final, Progress.final, Progress.hoisted_statements, Progress.hoisted_statements,
    h.halfway_eq source source']

theorem scopes_eq (h : Reordered script script') (referred : List String) :
    (analyzeStatements source script referred).scopes.scopes.map Scope.unplaced
      = (analyzeStatements source' script' referred).scopes.scopes.map Scope.unplaced :=
  h.ordinary.scopes_eq

/-- The plain assignments of both scripts have the same summaries. -/
theorem plain_summaries (h : Reordered script script') (referred : List String) :
    (analyzeStatements source script referred).plainDeclarations.map Declaration.summary
      = (analyzeStatements source' script' referred).plainDeclarations.map
        Declaration.summary := by
  have hnamed := h.named_eq
  rw [← Progress.assignments_named source, ← Progress.assignments_named source'] at hnamed
  rw [Progress.plainDeclarations_analyze, Progress.plainDeclarations_analyze]
  exact (Prod.mk.inj hnamed).1

/-- Bodies that are the same in both scripts have declarations with the same summary. -/
theorem other_summary (h : Reordered script script') (referred : List String) {k k' : Nat}
    {b b' : Tree} (hb : (otherBodies script)[k]? = some b)
    (hb' : (otherBodies script')[k']? = some b') (hsame : Relocated [b] [b']) :
    ∃ d d', (analyzeStatements source script referred).otherDeclarations[k]? = some d
      ∧ (analyzeStatements source' script' referred).otherDeclarations[k']? = some d'
      ∧ d.summary = d'.summary := by
  rw [Progress.otherDeclarations_analyze, Progress.otherDeclarations_analyze, List.getElem?_map,
    List.getElem?_map, hb, hb']
  refine ⟨_, _, rfl, rfl, ?_⟩
  -- Dependencies are cut down to the reactive names of the end, which are the same for both.
  have hreactive : (Progress.final source script).reactive.contains
      = (Progress.final source' script').reactive.contains := by
    funext x
    rw [Bool.eq_iff_iff, List.contains_iff_mem, List.contains_iff_mem]
    exact h.mem_reactive_iff source source' x
  simp only [Declaration.summary, Declaration.restrict, Progress.statement,
    h.halfway_eq source source', hsame.statementEffects_eq, hreactive]

theorem mem_assignees_iff (h : Reordered script script') (referred : List String) (x : String) :
    x ∈ (analyzeStatements source script referred).assignees
      ↔ x ∈ (analyzeStatements source' script' referred).assignees := by
  rw [mem_assignees_cases, mem_assignees_cases, h.plain_summaries source source',
    h.halfway_eq source source', h.exists_writes_iff]

theorem reactive_perm (h : Reordered script script') (referred : List String) :
    (analyzeStatements source script referred).reactive.Perm
      (analyzeStatements source' script' referred).reactive :=
  (List.perm_ext_iff_of_nodup (Progress.nodup_reactive_final source script)
    (Progress.nodup_reactive_final source' script')).mpr (h.mem_reactive_iff source source')

theorem assignees_perm (h : Reordered script script') (referred : List String) :
    (analyzeStatements source script referred).assignees.Perm
      (analyzeStatements source' script' referred).assignees :=
  (List.perm_ext_iff_of_nodup (nodup_eraseDups _) (nodup_eraseDups _)).mpr
    (h.mem_assignees_iff source source' referred)

end

end Reordered

/-! ## Two components -/

/-- The texts of the plain assignments are those of their bodies. -/
theorem codes_plainDeclarations (source : List Char) (script : List Tree) (referred : List String) :
    (analyzeStatements source script referred).plainDeclarations.map Declaration.code
      = (plainBodies script).map fun b => slice source b.span := by
  have horigin := congrArg (List.map fun origin => origin.2.1)
    (@Progress.origin_assignments source (Layered.start script) (reactiveBodies script))
  rw [List.map_map, List.map_map] at horigin
  rw [Progress.plainDeclarations_analyze]
  exact horigin

/-- Reactive statements commute. Take two components with the same template whose scripts have, but
for where they stand, the same ordinary statements and the same plain assignments in the same order,
and the same other reactive statements in any order; all reactive statements may stand anywhere. The
facts about them are the same: names of the component, reactive names, hoisted names, assignees and
names of the template; scopes but for the places of declarations; the plain assignments one by one
in style, assignees and dependencies, and in their text where that of their bodies is the same; and
for each other statement its assignees and dependencies. -/
theorem reactive_statements_commute {c c' : Component} (htemplate : c.template = c'.template)
    (h : Reordered c.statements c'.statements) :
    let f := analyze c
    let f' := analyze c'
    let text (c : Component) (body : Tree) := slice c.scriptSource.toList body.span
    f.globals = f'.globals
    ∧ f.reactive.Perm f'.reactive
    ∧ f.hoisted = f'.hoisted
    ∧ f.assignees.Perm f'.assignees
    ∧ f.referred = f'.referred
    ∧ f.scopes.scopes.map Scope.unplaced = f'.scopes.scopes.map Scope.unplaced
    ∧ f.plainDeclarations.map Declaration.summary = f'.plainDeclarations.map Declaration.summary
    ∧ ((plainBodies c.statements).map (text c) = (plainBodies c'.statements).map (text c') →
      f.plainDeclarations.map Declaration.code = f'.plainDeclarations.map Declaration.code)
    ∧ ∀ (k k' : Nat) (b b' : Tree), (otherBodies c.statements)[k]? = some b →
      (otherBodies c'.statements)[k']? = some b' → Relocated [b] [b'] →
      ∃ d d' : Declaration, f.otherDeclarations[k]? = some d ∧ f'.otherDeclarations[k']? = some d'
        ∧ d.assignees = d'.assignees ∧ d.dependencies = d'.dependencies := by
  intro f f' text
  have hf : f = analyzeStatements c.scriptSource.toList c.statements c.template.referredNames := rfl
  have hf' : f' = analyzeStatements c'.scriptSource.toList c'.statements c.template.referredNames :=
    htemplate ▸ rfl
  -- From here on the scripts are given by their statements, however these were read.
  clear_value f f'
  subst hf hf'
  refine ⟨h.globals_eq _ _ _, h.reactive_perm _ _ _, h.hoisted_eq _ _ _, h.assignees_perm _ _ _, ?_,
    h.scopes_eq _ _ _, h.plain_summaries _ _ _, fun htext => ?_, fun k k' b b' hb hb' hsame => ?_⟩
  · rw [Progress.analyzeStatements_eq, Progress.analyzeStatements_eq]
  · rw [codes_plainDeclarations, codes_plainDeclarations]
    exact htext
  · obtain ⟨d, d', hd, hd', hsummary⟩ := h.other_summary _ _ _ hb hb' hsame
    obtain ⟨-, hsame⟩ := Prod.mk.inj hsummary
    exact ⟨d, d', hd, hd', Prod.mk.inj hsame⟩

/-- Two statements change places, and all reactive statements stand elsewhere among the others: the
reactive names are met in another order, and the second statement still depends on the name that the
first one writes. -/
theorem reactive_statements_commute_swapped :
    let c : Component := ⟨"", ⟨[], []⟩, some ⟨"let n = 0, log, e; const f = () => \x7b n++; \x7d; "
      ++ "$: d = n * 2; $: if (d) \x7b let m = d; log = m; \x7d $: run(() => e = log + n);", []⟩⟩
    let c' : Component := ⟨"", ⟨[], []⟩, some ⟨"$: run(() => e = log + n); let n = 0, log, e; "
      ++ "$: if (d) \x7b let m = d; log = m; \x7d const f = () => \x7b n++; \x7d; "
      ++ "$: d = n * 2;", []⟩⟩
    (analyze c).reactive.Perm (analyze c').reactive
      ∧ (analyze c).plainDeclarations.map Declaration.summary
        = (analyze c').plainDeclarations.map Declaration.summary
      ∧ (analyze c').otherDeclarations.map Declaration.summary
        = [(.statement, ["e"], ["log", "n"]), (.statement, ["log"], ["d"])]
      ∧ ∃ d d', (analyze c).otherDeclarations[0]? = some d
        ∧ (analyze c').otherDeclarations[1]? = some d'
        ∧ d.assignees = d'.assignees ∧ d.dependencies = d'.dependencies := by
  intro c c'
  -- Each body stands in the second script where it moved to, and so does the function of `f`.
  obtain ⟨hordinary, hplain, hothers, hsummaries, b, hb, b', hb', hmoved⟩ :
      Shifted 29 90 (ordinaryStatements c.statements) (ordinaryStatements c'.statements)
      ∧ List.Forall₂ (fun b b' => Shifted b.span.start b'.span.start [b] [b'])
        (plainBodies c.statements) (plainBodies c'.statements)
      ∧ List.Forall₂ (fun b b' => Shifted b.span.start b'.span.start [b] [b'])
        (otherBodies c.statements).reverse (otherBodies c'.statements)
      ∧ (analyze c').otherDeclarations.map Declaration.summary
        = [(.statement, ["e"], ["log", "n"]), (.statement, ["log"], ["d"])]
      ∧ ∃ b ∈ (otherBodies c.statements)[0]?.toList, ∃ b' ∈ (otherBodies c'.statements)[1]?.toList,
        Shifted b.span.start b'.span.start [b] [b'] := by
    decide +kernel
  have hreordered : Reordered c.statements c'.statements := {
    ordinary := .of_shifted hordinary
    plain := hplain.imp fun _ _ h => .of_shifted h
    others := ⟨_, List.reverse_perm _, hothers.imp fun _ _ h => .of_shifted h⟩ }
  obtain ⟨-, hreactive, -, -, -, -, hsame, -, hother⟩ :=
    @reactive_statements_commute c c' rfl hreordered
  exact ⟨hreactive, hsame, hsummaries, hother 0 1 b b' (Option.mem_toList.mp hb)
    (Option.mem_toList.mp hb') (.of_shifted hmoved)⟩

end Reactive
