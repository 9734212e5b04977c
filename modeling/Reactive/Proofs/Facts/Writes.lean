/-
  Writes of ordinary statements are seen.

  A target writes to a variable if it is the variable, a member of it at any depth, or a pattern
  with such a part; these are the names that the analysis reads off a target. Main statement: a
  variable of the component that an update or an assignment of an ordinary statement writes to, at
  any depth and with no scope in between that declares the name, is reactive. The analysis finds a
  scope by the span of its node; in a script that was read these spans differ. The left side of a
  loop over the parts of something is a target as well, but the analysis does not look there.
-/
import Reactive.Proofs.Facts.Layers
import Reactive.Proofs.Notify.Announce
import Reactive.Proofs.Script.Enclosing
import Reactive.Proofs.Script.Replay
import Reactive.Proofs.Script.Spans.Statement

namespace Reactive

open Script

namespace Script

/-! ## Targets -/

/-- The label of nodes that stand for a part of their first part, or for the first part itself. -/
def Label.isAccess : Label → Bool
  | .member _ | .index _ | .privateMember _ | .paren => true
  | _ => false

/-- The label of parts of a pattern whose first part is the target. -/
def Label.isTargetPart : Label → Bool
  | .targetDefault | .targetRest | .targetName => true
  | _ => false

/-- The label of targets with several parts. -/
def Label.isTargetPattern : Label → Bool
  | .arrayTarget | .objectTarget => true
  | _ => false

namespace Tree

/-- A target writes to a variable, or through it to one of its members. -/
inductive WritesTo (name : String) : Tree → Prop where
  | itself (s : Span) (cs : List Tree) : WritesTo name (node (.identifier name) s cs)
  | access {l : Label} (s : Span) {object : Tree} (rest : List Tree) (hl : l.isAccess)
      (h : WritesTo name object) : WritesTo name (node l s (object :: rest))
  | pattern {l : Label} (s : Span) {cs : List Tree} {c : Tree} (hl : l.isTargetPattern)
      (hc : c ∈ cs) (h : WritesTo name c) : WritesTo name (node l s cs)
  | part {l : Label} (s : Span) {target : Tree} (rest : List Tree) (hl : l.isTargetPart)
      (h : WritesTo name target) : WritesTo name (node l s (target :: rest))
  | property (computed : Bool) (s : Span) (key : Tree) {target : Tree} (h : WritesTo name target) :
      WritesTo name (node (.targetProperty computed) s [key, target])

/-- What is read off a target is written. -/
theorem writesTo_of_mem_targetRoots {t : Tree} {name : String}
    (h : name ∈ t.targetRoots.map (·.1)) : WritesTo name t := by
  induction t using ind with
  | node l s cs ih =>
    rw [targetRoots_node] at h
    cases l with
    | identifier x =>
      obtain rfl : name = x := by simpa [targetRootsAt] using h
      exact .itself s cs
    | member o | index o | privateMember o | paren =>
      cases cs with
      | nil => exact absurd h (by simp [targetRootsAt])
      | cons object rest => exact .access s rest rfl (ih object List.mem_cons_self h)
    | arrayTarget | objectTarget =>
      simp only [targetRootsAt, List.map_flatten, List.map_map, List.mem_flatten,
        List.mem_map] at h
      obtain ⟨_, ⟨c, hc, rfl⟩, hname⟩ := h
      exact .pattern s rfl hc (ih c hc hname)
    | targetDefault | targetRest | targetName =>
      cases cs with
      | nil => exact absurd h (by simp [targetRootsAt])
      | cons target rest => exact .part s rest rfl (ih target List.mem_cons_self h)
    | targetProperty computed =>
      -- A property has a key and a target, and only the target is written.
      rcases cs with _ | ⟨key, _ | ⟨target, _ | ⟨more, rest⟩⟩⟩
      · exact absurd h (by simp [targetRootsAt])
      · exact absurd h (by simp [targetRootsAt])
      · exact .property computed s key (ih target (by simp) h)
      · exact absurd h (by simp [targetRootsAt])
    | _ => exact absurd h (by simp [targetRootsAt])

/-- What is written is read off the target. -/
theorem mem_targetRoots_of_writesTo {t : Tree} {name : String} (h : WritesTo name t) :
    name ∈ t.targetRoots.map (·.1) := by
  induction h with
  | itself s cs => simp [targetRoots_node, targetRootsAt]
  | access s rest hl _ ih =>
    rw [targetRoots_node]
    unfold Label.isAccess at hl
    split at hl <;> first | exact ih | exact absurd hl (by simp)
  | @pattern l s cs c hl hc _ ih =>
    rw [targetRoots_node]
    unfold Label.isTargetPattern at hl
    have hparts : name ∈ (cs.map targetRoots).flatten.map (·.1) := by
      rw [List.map_flatten, List.map_map]
      exact List.mem_flatten_of_mem (List.mem_map_of_mem hc) ih
    split at hl <;> first | exact hparts | exact absurd hl (by simp)
  | part s rest hl _ ih =>
    rw [targetRoots_node]
    unfold Label.isTargetPart at hl
    split at hl <;> first | exact ih | exact absurd hl (by simp)
  | property computed s key _ ih => rwa [targetRoots_node]

/-- The names of a target are the variables that it writes to. -/
theorem mem_targetNames_iff {t : Tree} {name : String} :
    name ∈ t.targetNames ↔ WritesTo name t := by
  rw [targetNames, List.mem_eraseDups]
  exact ⟨writesTo_of_mem_targetRoots, mem_targetRoots_of_writesTo⟩

/-! ## Nodes that write -/

/-- The target of a node that writes: of an update, of an assignment, or of a loop over the parts
of something, if its left side is no declaration. -/
def target? : Tree → Option Tree
  | node (.update ..) _ (target :: _) | node (.assign _) _ (target :: _) => some target
  | node .forIn _ (left :: _) | node (.forOf _) _ (left :: _) =>
    match left.label with
    | .variables _ => none
    | _ => some left
  | _ => none

/-- Updates and assignments write to the names of their target. -/
theorem writtenNames_of_target? {t target : Tree} (h : t.target? = some target)
    (hwrite : t.label.isWrite) : t.writtenNames = target.targetNames := by
  unfold target? at h
  split at h
  · obtain rfl := Option.some_inj.mp h
    rfl
  · obtain rfl := Option.some_inj.mp h
    rfl
  · exact absurd hwrite (by simp [Label.isWrite])
  · exact absurd hwrite (by simp [Label.isWrite])
  · exact absurd h (by simp)

end Tree

/-! ## Names that nothing hides -/

/-- No scope that opens around a place declares the name. -/
def Visited.Unshadowed (statements : List Tree) (v : Visited) (name : String) : Prop :=
  ∀ w ∈ scriptVisits statements, w.opens = true → v.Inside w →
    (ScopeTree.build statements).declaresAt name w.inner = false

instance (statements : List Tree) (v : Visited) (name : String) :
    Decidable (v.Unshadowed statements name) :=
  inferInstanceAs (Decidable (∀ w ∈ scriptVisits statements, w.opens = true → v.Inside w → _ = _))

/-- A name of the root that nothing hides belongs to the root. -/
theorem findOwner_of_unshadowed {statements : List Tree} {v : Visited} {name : String}
    (hv : v ∈ scriptVisits statements) (hfree : v.Unshadowed statements name)
    (hdeclared : (ScopeTree.build statements).declaresAt name ScopeTree.rootId = true) :
    (ScopeTree.build statements).findOwner v.scope name = some ScopeTree.rootId := by
  refine ScopeTree.findOwner_eq_some_iff.mpr
    ⟨(mem_chain_scope hv).mpr (Or.inl rfl), hdeclared, fun j hj hlt => ?_⟩
  rcases (mem_chain_scope hv).mp hj with rfl | ⟨w, hw, hopens, hinside, rfl⟩
  · exact absurd hlt (Nat.lt_irrefl _)
  · exact hfree w hw hopens hinside

/-- Where spans differ, a visited node is seen with the scope of its visit: what it writes to the
root is among the writes to the root. -/
theorem mem_rootMutations_of_visit {statements : List Tree}
    (hspans : (scriptTree statements).openSpans.Nodup) {v : Visited} {name : String}
    (hv : v ∈ scriptVisits statements) (hwritten : name ∈ v.node.writtenNames)
    (hroot : (ScopeTree.build statements).findOwner v.scope name = some ScopeTree.rootId) :
    name ∈ rootMutations (ScopeTree.build statements) statements := by
  obtain ⟨stop, hstop, hplace⟩ :=
    List.mem_map.mp ((places_of_script hspans).symm ▸ List.mem_map_of_mem hv)
  have hwalked := List.mem_of_mem_filter hstop
  have hnode : stop.node = v.node := congrArg (·.2.1) hplace
  have hcurrent : stop.cursor.current = v.scope := congrArg (·.2.2) hplace
  have htree := (Tree.at?_of_mem_walked hwalked).2.1
  rw [rootMutations_eq_walked, List.mem_eraseDups]
  refine List.mem_flatMap.mpr ⟨stop, hwalked, List.mem_filter.mpr ⟨hnode ▸ hwritten, ?_⟩⟩
  rw [ScopeCursor.resolvesToRoot, ScopeCursor.resolve, htree, hcurrent]
  exact beq_iff_eq.mpr hroot

end Script

/-! ## The script of a component -/

/-- No two nodes of the ordinary statements that open scopes have the same span. -/
theorem nodup_openSpans_ordinary (c : Component) :
    (scriptTree (ordinaryStatements c.statements)).openSpans.Nodup :=
  nodup_openSpans_of_sublist (List.filter_sublist.trans List.filter_sublist)

/-- Take a variable at the root of the script of a component and an update or an assignment in an
ordinary statement, at any depth, whose target writes to the variable: the variable itself, a member
at any depth, or a part of a pattern. If no scope that opens around the write declares the name, the
variable is reactive. -/
theorem written_names_reactive (c : Component) {v : Visited} {target : Tree} {name : String}
    (hv : v ∈ scriptVisits (ordinaryStatements c.statements))
    (htarget : v.node.target? = some target) (hwrite : v.node.label.isWrite)
    (hname : target.WritesTo name)
    (hdeclared : (analyze c).scopes.declaresAt name ScopeTree.rootId = true)
    (hfree : v.Unshadowed (ordinaryStatements c.statements) name) :
    name ∈ (analyze c).reactive := by
  have hwritten : name ∈ v.node.writtenNames := by
    rw [Tree.writtenNames_of_target? htarget hwrite]
    exact Tree.mem_targetNames_iff.mpr hname
  have hroot := findOwner_of_unshadowed hv hfree hdeclared
  exact reactive_of_rootMutations _ _ _
    (mem_rootMutations_of_visit (nodup_openSpans_ordinary c) hv hwritten hroot)

/-- A variable of which a member is written as a part of a pattern, in a function in a block. -/
theorem written_names_reactive_nested :
    let c : Component := ⟨"", ⟨[], []⟩,
      some ⟨"let x = 0; \x7b run(() => ([\x7b a: x.y \x7d] = f())); \x7d", []⟩⟩
    "x" ∈ (analyze c).reactive := by
  intro c
  obtain ⟨hdeclared, v, hv, ⟨hwrite, hfree⟩, target, htarget, hname⟩ :
      (analyze c).scopes.declaresAt "x" ScopeTree.rootId = true
      ∧ ∃ v ∈ scriptVisits (ordinaryStatements c.statements),
        (v.node.label.isWrite = true ∧ v.Unshadowed (ordinaryStatements c.statements) "x")
        ∧ ∃ target ∈ v.node.target?.toList, "x" ∈ target.targetNames := by
    decide +kernel
  exact written_names_reactive c hv (Option.mem_toList.mp htarget) hwrite
    (Tree.mem_targetNames_iff.mp hname) hdeclared hfree

/-- The left side of a loop, whether it is the variable, a member or a pattern, is not looked at: a
variable that is written nowhere else is not reactive. -/
theorem loop_targets_missed :
    List.Forall (fun loop =>
    let c : Component := ⟨"", ⟨[], []⟩, some ⟨"let x = 0; " ++ loop, []⟩⟩
    "x" ∉ (analyze c).reactive
    ∧ (analyze c).scopes.declaresAt "x" ScopeTree.rootId = true
    ∧ ∃ v ∈ scriptVisits (ordinaryStatements c.statements),
      v.Unshadowed (ordinaryStatements c.statements) "x"
      ∧ ∃ target, v.node.target? = some target ∧ target.WritesTo "x")
    ["for (x of [1, 2]) ;", "for (x in y) ;", "for (x.a of [1, 2]) ;", "for ([x] of [[1]]) ;"] := by
  simp only [← Tree.mem_targetNames_iff]
  decide +kernel

end Reactive
