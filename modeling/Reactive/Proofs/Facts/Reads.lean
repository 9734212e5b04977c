/-
  Reads of reactive statements.

  A reactive statement that is no plain assignment depends on the reactive names that it reads. The
  walk over the statement carries two marks: one for the identifier that a single target writes
  through, and one for everything inside a target that is a pattern. Both are told here by the
  nodes around a place. Main statement: the dependencies are the reactive names with an identifier
  that no scope of the statement declares, that nothing writes through, and that stands in no
  pattern. Indices, keys and defaults inside a pattern are read when the statement runs, but no
  dependency comes from there.
-/
import Reactive.Proofs.Facts.Dependencies
import Reactive.Proofs.Script.Free

namespace Reactive

open Script

namespace Script

/-! ## Places in targets -/

/-- A part with the number 0 stands in front of the others. -/
theorem exists_cons_of_first {α : Type} {parts : List α} {a : α} (h : parts[0]? = some a) :
    ∃ others, parts = a :: others := by
  rw [← List.head?_eq_getElem?] at h
  exact List.head?_eq_some_iff.mp h

namespace Tree

/-- The place is the identifier at the root of an expression: `x` in `x`, `x.a[i]` and `x.#p`. -/
def rootAt : Tree → List Nat → Bool
  | node (.identifier _) _ _, [] => true
  | node l _ (object :: _), 0 :: path => l.isAccess && object.rootAt path
  | _, _ => false

/-- The place is the identifier at the root of a leaf of a pattern. -/
def leafAt : Tree → List Nat → Bool
  | node .arrayTarget _ cs, i :: path | node .objectTarget _ cs, i :: path =>
    match cs[i]? with
    | some c => c.leafAt path
    | none => false
  | node .targetDefault _ (target :: _), 0 :: path | node .targetRest _ (target :: _), 0 :: path
  | node .targetName _ (target :: _), 0 :: path
  | node (.targetProperty _) _ [_, target], 1 :: path => target.leafAt path
  | t, path => t.rootAt path

/-- A node with this label and this first part is an assignment to a pattern. -/
def destructures (l : Label) (target : Tree) : Bool :=
  match l with
  | .assign _ => target.isPatternTarget
  | _ => false

/-- A node with this label and this first part writes through the place in that part: the identifier
at the root of a single target, or of a leaf of a pattern. -/
def writesAt (l : Label) (target : Tree) (path : List Nat) : Bool :=
  match l with
  | .update .. => target.rootAt path
  | .assign _ => if target.isPatternTarget then target.leafAt path else target.rootAt path
  | _ => false

/-- The place lies in the first part of a node around it whose label, first part and rest of the way
are of a kind. -/
def InFirst (kind : Label → Tree → List Nat → Bool) (t : Tree) (path : List Nat) : Prop :=
  ∃ q rest l s target cs, path = q ++ 0 :: rest ∧ t.at? q = some (node l s (target :: cs))
    ∧ kind l target rest = true

/-- An update or an assignment writes through the place. -/
def WrittenThrough (t : Tree) (path : List Nat) : Prop := t.InFirst writesAt path

/-- The place lies in a target that is a pattern. -/
def InPattern (t : Tree) (path : List Nat) : Prop :=
  t.InFirst (fun l target _ => destructures l target) path

/-- A scope that the statement opens around the place, or its own, declares the name. -/
def LocalAt (t : Tree) (path : List Nat) (name : String) : Prop :=
  let scopes := ScopeTree.build [t]
  (scopes.findOwner (scopes.scopeAt ScopeTree.rootId t path) name).isSome

instance (t : Tree) (path : List Nat) (name : String) : Decidable (t.LocalAt path name) :=
  inferInstanceAs (Decidable (_ = true))

section

variable {kind : Label → Tree → List Nat → Bool}

/-- The nodes around a place, by recursion along the way to it. -/
def inFirst (kind : Label → Tree → List Nat → Bool) : Tree → List Nat → Bool
  | _, [] => false
  | node l _ cs, i :: path =>
    match cs[i]? with
    | some c => (i == 0 && kind l c path) || c.inFirst kind path
    | none => false

@[simp] theorem inFirst_nil (t : Tree) : t.inFirst kind [] = false := by
  cases t; rfl

theorem inFirst_cons {l : Label} {s : Span} {cs : List Tree} {i : Nat} {c : Tree}
    (hc : cs[i]? = some c) (path : List Nat) :
    (node l s cs).inFirst kind (i :: path)
      = ((i == 0 && kind l c path) || c.inFirst kind path) := by
  rw [inFirst, hc]

theorem inFirst_iff {t : Tree} {path : List Nat} :
    t.inFirst kind path = true ↔ t.InFirst kind path := by
  induction path generalizing t with
  | nil =>
    rw [inFirst_nil]
    refine ⟨fun h => absurd h (by simp), ?_⟩
    rintro ⟨q, rest, l, s, target, cs, hpath, -⟩
    exact absurd hpath (by simp)
  | cons i path ih =>
    obtain ⟨l, s, cs⟩ := t
    cases hc : cs[i]? with
    | none =>
      refine ⟨fun h => absurd h (by simp [inFirst, hc]), ?_⟩
      rintro ⟨q, rest, l', s', target, cs', hpath, hq, -⟩
      cases q with
      | nil =>
        obtain ⟨rfl, rfl⟩ := List.cons.inj hpath
        obtain ⟨-, -, rfl⟩ := Tree.node.inj (Option.some.inj hq)
        exact absurd hc (by simp)
      | cons j q =>
        obtain ⟨rfl, rfl⟩ := List.cons.inj hpath
        rw [at?_cons, hc] at hq
        exact absurd hq (by simp)
    | some c =>
      rw [inFirst_cons hc, Bool.or_eq_true, Bool.and_eq_true, beq_iff_eq, ih]
      constructor
      · rintro (⟨rfl, hkind⟩ | ⟨q, rest, l', s', target, cs', rfl, hq, hkind⟩)
        · obtain ⟨others, rfl⟩ := exists_cons_of_first hc
          exact ⟨[], path, l, s, c, others, rfl, rfl, hkind⟩
        · exact ⟨i :: q, rest, l', s', target, cs', rfl, by rw [at?_cons, hc]; exact hq, hkind⟩
      · rintro ⟨q, rest, l', s', target, cs', hpath, hq, hkind⟩
        cases q with
        | nil =>
          obtain ⟨rfl, rfl⟩ := List.cons.inj hpath
          obtain ⟨rfl, -, rfl⟩ := Tree.node.inj (Option.some.inj hq)
          obtain rfl : target = c := Option.some.inj hc
          exact Or.inl ⟨rfl, hkind⟩
        | cons j q =>
          obtain ⟨rfl, rfl⟩ := List.cons.inj hpath
          rw [at?_cons, hc] at hq
          exact Or.inr ⟨q, rest, l', s', target, cs', rfl, hq, hkind⟩

instance (t : Tree) (path : List Nat) : Decidable (t.InFirst kind path) :=
  decidable_of_iff _ inFirst_iff

instance (t : Tree) (path : List Nat) : Decidable (t.WrittenThrough path) :=
  inferInstanceAs (Decidable (t.InFirst _ path))

instance (t : Tree) (path : List Nat) : Decidable (t.InPattern path) :=
  inferInstanceAs (Decidable (t.InFirst _ path))

end

end Tree

/-! ## The usage of a place -/

theorem Tree.destructures_eq_false {l : Label} (h : l.isWrite = false) (target : Tree) :
    destructures l target = false := by
  unfold destructures
  split <;> simp_all [Label.isWrite]

/-- Labels by what they make of the first part of their node: it is updated, it is assigned to, the
node stands for a part of it, or it is used like the others. -/
theorem Label.usages (l : Label) : (∃ op before, l = .update op before) ∨ (∃ op, l = .assign op)
    ∨ (l.isWrite = false ∧ l.isAccess = true) ∨ (l.isWrite = false ∧ l.isAccess = false) := by
  cases hwrite : l.isWrite with
  | true =>
    unfold Label.isWrite at hwrite
    split at hwrite
    · exact Or.inl ⟨_, _, rfl⟩
    · exact Or.inr (Or.inl ⟨_, rfl⟩)
    · cases hwrite
  | false => cases l.isAccess <;> simp

namespace Usage

/-- The usage of the node at an address. -/
def along (u : Usage) : Tree → List Nat → Usage
  | _, [] => u
  | .node l _ cs, i :: path =>
    match cs[i]? with
    | none => u
    | some c => (u.part l cs i).along c path

@[simp] theorem along_nil (u : Usage) (t : Tree) : u.along t [] = u := by
  cases t; rfl

theorem along_cons (u : Usage) {l : Label} {s : Span} {cs : List Tree} {i : Nat} {c : Tree}
    (hc : cs[i]? = some c) (path : List Nat) :
    u.along (.node l s cs) (i :: path) = (u.part l cs i).along c path := by
  rw [along, hc]

/-- A node with this label writes through the identifier at the root of its first part. -/
def single (l : Label) (target : Tree) (path : List Nat) : Bool :=
  match l with
  | .update .. => target.rootAt path
  | .assign _ => !target.isPatternTarget && target.rootAt path
  | _ => false

theorem single_eq_false {l : Label} (h : l.isWrite = false) (target : Tree) (path : List Nat) :
    single l target path = false := by
  unfold single
  split <;> simp_all [Label.isWrite]

theorem first_of_isAccess {l : Label} (h : l.isAccess = true) (cs : List Tree) (u : Usage) :
    u.first l cs = u := by
  unfold Label.isAccess at h
  split at h <;> first | rfl | cases h

theorem first_of_plain {l : Label} (hwrite : l.isWrite = false) (haccess : l.isAccess = false)
    (cs : List Tree) (u : Usage) : u.first l cs = u.other := by
  unfold first
  split <;> simp_all [Label.isWrite, Label.isAccess, other]

/-- A part is inside a pattern if its node is, or if it is the pattern that its node writes to. -/
theorem inPattern_part (u : Usage) (l : Label) {cs : List Tree} {i : Nat} {c : Tree}
    (hc : cs[i]? = some c) :
    (u.part l cs i).inPattern = (u.inPattern || (i == 0 && Tree.destructures l c)) := by
  cases i with
  | zero =>
    obtain ⟨others, rfl⟩ := exists_cons_of_first hc
    rcases l.usages with ⟨op, before, rfl⟩ | ⟨op, rfl⟩ | ⟨hwrite, haccess⟩ | ⟨hwrite, haccess⟩
    · simp [part, first, Tree.destructures]
    · cases hpattern : c.isPatternTarget <;> simp [part, first, Tree.destructures, hpattern]
    · simp [part, first_of_isAccess haccess, Tree.destructures_eq_false hwrite]
    · simp [part, first_of_plain hwrite haccess, other, Tree.destructures_eq_false hwrite]
  | succ i => simp [part, other]

/-- The root of a part is written through if the part is the single target of its node, or if its
node stands for it and is written through itself. -/
theorem isTarget_part (u : Usage) (l : Label) (s : Span) {cs : List Tree} {i : Nat} {c : Tree}
    (hc : cs[i]? = some c) (path : List Nat) :
    ((u.part l cs i).isTarget && c.rootAt path)
      = ((u.isTarget && (Tree.node l s cs).rootAt (i :: path)) || (i == 0 && single l c path)) := by
  cases i with
  | zero =>
    obtain ⟨others, rfl⟩ := exists_cons_of_first hc
    rcases l.usages with ⟨op, before, rfl⟩ | ⟨op, rfl⟩ | ⟨hwrite, haccess⟩ | ⟨hwrite, haccess⟩
    · simp [part, first, single, Tree.rootAt, Label.isAccess]
    · cases hpattern : c.isPatternTarget <;>
        simp [part, first, single, Tree.rootAt, Label.isAccess, hpattern]
    · simp [part, first_of_isAccess haccess, single_eq_false hwrite,
        Tree.rootAt, haccess]
    · simp [part, first_of_plain hwrite haccess, other, single_eq_false hwrite, Tree.rootAt,
        haccess]
  | succ i => simp [part, other, Tree.rootAt]

section

variable {t e : Tree} {path : List Nat}

/-- A place is marked as inside a pattern if it is, or if the whole tree is marked. -/
theorem inPattern_along (u : Usage) (hat : t.at? path = some e) :
    (u.along t path).inPattern
      = (u.inPattern || t.inFirst (fun l target _ => Tree.destructures l target) path) := by
  induction path generalizing t u with
  | nil => simp
  | cons i path ih =>
    obtain ⟨l, s, cs⟩ := t
    obtain ⟨c, hc, hat⟩ := Tree.exists_child_of_at? hat
    rw [along_cons u hc, ih _ hat, inPattern_part u l hc, Tree.inFirst_cons hc, Bool.or_assoc]

/-- An identifier is marked as written through if it is the root of a single target, or of the whole
tree where that is marked. -/
theorem isTarget_along (u : Usage) {name : String} {s : Span} {cs : List Tree}
    (hat : t.at? path = some (.node (.identifier name) s cs)) :
    (u.along t path).isTarget = ((u.isTarget && t.rootAt path) || t.inFirst single path) := by
  induction path generalizing t u with
  | nil =>
    obtain rfl := Option.some.inj ((Tree.at?_nil t).symm.trans hat)
    simp [Tree.rootAt]
  | cons i path ih =>
    obtain ⟨l, s', cs'⟩ := t
    obtain ⟨c, hc, hat⟩ := Tree.exists_child_of_at? hat
    rw [along_cons u hc, ih _ hat, isTarget_part u l s' hc, Tree.inFirst_cons hc, Bool.or_assoc]

/-- Outside patterns, only single targets are written through. -/
theorem writtenThrough_or_inPattern :
    t.WrittenThrough path ∨ t.InPattern path ↔ t.InFirst single path ∨ t.InPattern path := by
  -- Single targets and patterns are told apart by the node that writes to them.
  have hkinds (l : Label) (target : Tree) (rest : List Nat) :
      Tree.writesAt l target rest = true ∨ Tree.destructures l target = true
        ↔ single l target rest = true ∨ Tree.destructures l target = true := by
    unfold Tree.writesAt single Tree.destructures
    split
    · rfl
    · cases hpattern : target.isPatternTarget <;> simp
    · rfl
  constructor
  · rintro (⟨q, rest, l, s, target, cs, hpath, hq, hkind⟩ | h)
    · exact ((hkinds l target rest).mp (Or.inl hkind)).imp
        (⟨q, rest, l, s, target, cs, hpath, hq, ·⟩) (⟨q, rest, l, s, target, cs, hpath, hq, ·⟩)
    · exact Or.inr h
  · rintro (⟨q, rest, l, s, target, cs, hpath, hq, hkind⟩ | h)
    · exact ((hkinds l target rest).mpr (Or.inl hkind)).imp
        (⟨q, rest, l, s, target, cs, hpath, hq, ·⟩) (⟨q, rest, l, s, target, cs, hpath, hq, ·⟩)
    · exact Or.inr h

end

end Usage

/-! ## Reads -/

/-- The reads of a tree are its identifiers, in document order, as far as they carry no mark and no
scope around them declares their name. -/
theorem reads_effects (globals : List String) (t : Tree) (cursor : ScopeCursor) (usage : Usage) :
    (t.effects globals cursor usage).reads = (t.uses.filter fun use =>
      !(usage.along t use.1).isTarget && !(usage.along t use.1).inPattern
        && ((cursor.tree.findOwner (cursor.tree.scopeAt cursor.current t use.1) use.2).isNone
          && globals.contains use.2)).map (·.2) := by
  induction t using Tree.ind generalizing cursor usage with
  | node l s cs ih =>
    by_cases hl : ∃ name, l = .identifier name
    · obtain ⟨name, rfl⟩ := hl
      rw [Tree.effects, Tree.fold_node, Tree.uses_node]
      simp only [isGlobalAt, ScopeCursor.resolve, List.filter_singleton, Usage.along_nil,
        ScopeTree.scopeAt_nil, Option.beq_none, Bool.cond_eq_ite]
      split <;> rfl
    · have hnode := found_node Effects.reads rfl (fun _ _ => rfl) globals
        (fun name heq => hl ⟨name, heq⟩) s cs cursor usage
      rw [hnode, Tree.uses_node]
      split
      · exact absurd ⟨_, rfl⟩ hl
      · rw [List.nil_append, filter_gather, map_gather]
        refine gather_congr fun i c hc => ?_
        rw [ih c (List.mem_of_getElem? hc), List.filter_map, List.map_map]
        refine congrArg (List.map _) (List.filter_congr fun use _ => ?_)
        simp only [Function.comp_apply, Usage.along_cons usage hc, ScopeTree.scopeAt_cons _ _ hc,
          ScopeCursor.tree_inside, ScopeCursor.current_inside]

/-- An identifier of a tree stands where its use says. -/
theorem Tree.at?_of_mem_uses {t : Tree} {path : List Nat} {name : String}
    (h : (path, name) ∈ t.uses) : ∃ s cs, t.at? path = some (node (.identifier name) s cs) := by
  induction t using Tree.ind generalizing path with
  | node l s cs ih =>
    rw [uses_node] at h
    split at h
    · obtain ⟨rfl, rfl⟩ := Prod.mk.inj (List.mem_singleton.mp h)
      exact ⟨s, cs, rfl⟩
    · obtain ⟨i, c, hc, huse⟩ := mem_gather.mp h
      obtain ⟨use, hmem, heq⟩ := List.mem_map.mp huse
      obtain ⟨rfl, rfl⟩ := Prod.mk.inj heq
      obtain ⟨s', cs', hat⟩ := ih c (List.mem_of_getElem? hc) hmem
      exact ⟨s', cs', by rw [at?_cons, hc]; exact hat⟩

/-- What a statement reads: the names of the component with an identifier that no scope of the
statement declares, that nothing writes through, and that stands in no pattern. -/
theorem mem_reads_iff {globals : List String} {statement : Tree} {name : String} :
    name ∈ (statementEffects globals statement).reads ↔ name ∈ globals
      ∧ ∃ path, (path, name) ∈ statement.uses ∧ ¬ statement.LocalAt path name
        ∧ ¬ statement.WrittenThrough path ∧ ¬ statement.InPattern path := by
  -- The marks of the walk, told by the nodes around the place.
  have hmarks {path : List Nat} (huse : (path, name) ∈ statement.uses) :
      ((Usage.plain.along statement path).isTarget = false
        ∧ (Usage.plain.along statement path).inPattern = false)
      ↔ ¬ statement.WrittenThrough path ∧ ¬ statement.InPattern path := by
    obtain ⟨s, cs, hat⟩ := Tree.at?_of_mem_uses huse
    rw [← not_or, Usage.writtenThrough_or_inPattern, not_or, Usage.isTarget_along _ hat,
      Usage.inPattern_along _ hat, Tree.InPattern, ← Tree.inFirst_iff, ← Tree.inFirst_iff]
    simp [Usage.plain]
  show name ∈ List.eraseDups _ ↔ _
  rw [List.mem_eraseDups, reads_effects, List.mem_map]
  constructor
  · rintro ⟨⟨path, _⟩, huse, rfl⟩
    obtain ⟨huse, hread⟩ := List.mem_filter.mp huse
    simp only [Bool.and_eq_true, Bool.not_eq_true', Option.isNone_iff_eq_none] at hread
    obtain ⟨hmarked, hlocal, hglobal⟩ := hread
    refine ⟨by simpa using hglobal, path, huse, ?_, (hmarks huse).mp hmarked⟩
    exact Option.not_isSome_iff_eq_none.mpr hlocal
  · rintro ⟨hglobal, path, huse, hlocal, hmarked⟩
    refine ⟨(path, name), List.mem_filter.mpr ⟨huse, ?_⟩, rfl⟩
    simp only [Bool.and_eq_true, Bool.not_eq_true', Option.isNone_iff_eq_none]
    refine ⟨(hmarks huse).mpr hmarked, ?_, by simpa using hglobal⟩
    exact Option.not_isSome_iff_eq_none.mp hlocal

end Script

/-! ## The script of a component -/

/-- A reactive statement of a component that is no plain assignment depends on the reactive names
with an identifier in it that no scope of the statement declares at that place, that no update or
assignment writes through, and that lies in no target that is a pattern. A name whose identifiers
inside patterns are all declared in the statement or written through is therefore a dependency just
where an identifier of it is neither. -/
theorem statement_dependencies_exact (c : Component) {k : Nat} {body : Tree}
    (hbody : (otherBodies c.statements)[k]? = some body) :
    let f := analyze c
    ∃ d, f.otherDeclarations[k]? = some d ∧ d.span = body.span
      ∧ (∀ x, x ∈ d.dependencies ↔ x ∈ f.reactive ∧ ∃ path, (path, x) ∈ body.uses
        ∧ ¬ body.LocalAt path x ∧ ¬ body.WrittenThrough path ∧ ¬ body.InPattern path)
      ∧ ∀ x, (∀ path, (path, x) ∈ body.uses → body.InPattern path →
          body.LocalAt path x ∨ body.WrittenThrough path) →
        (x ∈ d.dependencies ↔ x ∈ f.reactive ∧ ∃ path, (path, x) ∈ body.uses
          ∧ ¬ body.LocalAt path x ∧ ¬ body.WrittenThrough path) := by
  intro f
  let source := c.scriptSource.toList
  let known := Progress.halfway source c.statements
  let d := (Progress.statement source known body).1.restrict f.reactive
  have hexact (x : String) : x ∈ d.dependencies ↔ x ∈ f.reactive ∧ ∃ path, (path, x) ∈ body.uses
      ∧ ¬ body.LocalAt path x ∧ ¬ body.WrittenThrough path ∧ ¬ body.InPattern path := by
    have hrestrict : x ∈ d.dependencies
        ↔ x ∈ (statementEffects known.globals body).reads ∧ x ∈ f.reactive := by
      simp [d, Declaration.restrict, Progress.statement]
    -- Reactive names are names of the component, and these are complete by now.
    have hglobal (hx : x ∈ f.reactive) : x ∈ known.globals := by
      have hfinal := (Progress.consistent_final source c.statements).reactive_subset hx
      rwa [Progress.final, Progress.globals_statements] at hfinal
    rw [hrestrict, mem_reads_iff]
    exact ⟨fun h => ⟨h.2, h.1.2⟩, fun h => ⟨⟨hglobal h.1, h.2⟩, h.1⟩⟩
  refine ⟨d, ?_, rfl, hexact, fun x hpatterns => ?_⟩
  · have hothers : f.otherDeclarations = _ :=
      Progress.otherDeclarations_analyze source c.statements c.template.referredNames
    rw [hothers, List.getElem?_map, hbody]
    rfl
  · rw [hexact x]
    refine and_congr_right fun _ => exists_congr fun path => and_congr_right fun huse => ?_
    refine and_congr_right fun hlocal => and_iff_left_of_imp fun hwritten hin => ?_
    exact (hpatterns path huse hin).elim hlocal hwritten

/-- The variable `a` is only written through, `n` is declared in the block, and `i` and `m` are
read: as an index, and by a function in the value. -/
theorem statement_dependencies_index :
    let c : Component := ⟨"", ⟨[], []⟩, some ⟨"let a, i, n, m; const f = () => i++ + n++ + m++; "
      ++ "$: \x7b let n; a[i].b = () => n + m; [a.c] = []; \x7d", []⟩⟩
    ∃ d, (analyze c).otherDeclarations[0]? = some d
      ∧ ∀ x ∈ (analyze c).reactive, x ∈ d.dependencies ↔ x = "i" ∨ x = "m" := by
  intro c
  -- The statement, with all that the theorem asks about its identifiers, computed at once.
  obtain ⟨body, hbody, hpatterns, hreads⟩ : ∃ body ∈ (otherBodies c.statements)[0]?.toList,
      (∀ use ∈ body.uses, body.InPattern use.1 →
        body.LocalAt use.1 use.2 ∨ body.WrittenThrough use.1)
      ∧ ∀ x ∈ (analyze c).reactive, (∃ use ∈ body.uses, use.2 = x
        ∧ ¬ body.LocalAt use.1 use.2 ∧ ¬ body.WrittenThrough use.1) ↔ x = "i" ∨ x = "m" := by
    decide +kernel
  obtain ⟨d, hd, -, -, hexact⟩ := statement_dependencies_exact c (Option.mem_toList.mp hbody)
  refine ⟨d, hd, fun x hx => ?_⟩
  rw [hexact x fun path huse => hpatterns (path, x) huse, ← hreads x hx]
  constructor
  · rintro ⟨-, path, huse, hread⟩
    exact ⟨(path, x), huse, rfl, hread⟩
  · rintro ⟨⟨path, _⟩, huse, rfl, hread⟩
    exact ⟨hx, path, huse, hread⟩

/-- An index, a default and a key inside a pattern are no identifiers that anything writes through,
and no scope declares the name: still it is no dependency. -/
theorem pattern_reads_missed :
    List.Forall (fun write =>
    let c : Component := ⟨"", ⟨[], []⟩, some ⟨"let a, i; const f = () => i++; "
      ++ "$: \x7b " ++ write ++ " \x7d", []⟩⟩
    "i" ∈ (analyze c).reactive
    ∧ ∃ b ∈ (otherBodies c.statements).zip (analyze c).otherDeclarations,
      "i" ∉ b.2.dependencies ∧ ∃ use ∈ b.1.uses, use.2 = "i"
        ∧ ¬ b.1.LocalAt use.1 "i" ∧ ¬ b.1.WrittenThrough use.1)
    ["[a[i]] = [];", "[a = i] = [];", "(\x7b [i]: a \x7d = a);"] := by
  decide +kernel

end Reactive
