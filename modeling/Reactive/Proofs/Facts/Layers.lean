/-
  Reactive declarations in layers.

  Where every reactive declaration is a plain assignment and reads nothing that it or a later one
  assigns, the dependencies that are recorded for a declaration are exactly the reactive names
  among the free names of its value: what is not yet reactive when the analysis comes to the
  declaration is never reactive, or not read.

  Where every name is assigned once and nowhere else, a value may read what it likes: dependencies
  still lead from a declaration to earlier ones only, since the analysis looks up what a value reads
  before the names of the declaration itself join.
-/
import Reactive.Proofs.Facts.Progress

namespace Reactive

open Script

/-- The statements of the script of a component. -/
def Component.statements (c : Component) : List Tree :=
  (programTree c.scriptSource.toList).statements

/-- The targets and values of the plain assignments among the reactive declarations. -/
def plainAssignments (statements : List Tree) : List (Tree × Tree) :=
  (reactiveBodies statements).filterMap plainAssignment?

/-- Every reactive declaration is a plain assignment, no name is assigned by two of them, and what
one of them reads is assigned only by earlier ones. -/
structure Layered (statements : List Tree) : Prop where
  plain : ∀ body ∈ reactiveBodies statements, (plainAssignment? body).isSome
  once : ∀ {i j : Nat} {a b : Tree × Tree} {x : String},
    (plainAssignments statements)[i]? = some a → (plainAssignments statements)[j]? = some b →
    x ∈ a.1.targetNames → x ∈ b.1.targetNames → i = j
  forward : ∀ {i j : Nat} {a b : Tree × Tree} {x : String},
    (plainAssignments statements)[i]? = some a → (plainAssignments statements)[j]? = some b →
    x ∈ a.1.targetNames → x ∈ b.2.freeNames → i < j

namespace Progress

/-- What the analysis records for a plain assignment. -/
theorem getElem?_assignments {source : List Char} {p : Progress} {bodies : List Tree} {i : Nat}
    {d : Declaration} (h : (assignments source p bodies).1[i]? = some d) :
    ∃ a, (bodies.filterMap plainAssignment?)[i]? = some a ∧ d.assignees = a.1.targetNames
      ∧ ∀ x, x ∈ d.dependencies ↔ x ∈ a.2.freeNames ∧ (x ∈ p.reactive
        ∨ ∃ j b, j < i ∧ (bodies.filterMap plainAssignment?)[j]? = some b
          ∧ x ∈ b.1.targetNames) := by
  fun_induction assignments source p bodies generalizing i with
  | case1 p => simp at h
  | case2 p body bodies hbody ih =>
    rw [List.filterMap_cons_none hbody]
    exact ih h
  | case3 p body bodies target value hbody d' p' hp ds q hq ih =>
    obtain ⟨rfl, rfl⟩ : d' = (assignment source p body target value).1
        ∧ p' = target.targetNames.foldl assigned p := by
      simpa [assignment, eq_comm] using hp
    rw [List.filterMap_cons_some hbody]
    cases i with
    | zero =>
      obtain rfl : (assignment source p body target value).1 = d := by simpa using h
      refine ⟨(target, value), rfl, rfl, fun x => ?_⟩
      simp [assignment]
    | succ i =>
      rw [hq] at ih
      obtain ⟨a, ha, hassignees, hreads⟩ := ih (by simpa using h)
      refine ⟨a, ha, hassignees, fun x => ?_⟩
      rw [hreads x, mem_reactive_foldl_assigned]
      -- The targets of the first assignment have joined, so that they count as earlier ones.
      refine and_congr_right fun _ => ?_
      rw [or_assoc]
      refine or_congr_right ⟨?_, ?_⟩
      · rintro (hx | ⟨j, b, hj, hb, hx⟩)
        · exact ⟨0, (target, value), Nat.succ_pos i, rfl, hx⟩
        · exact ⟨j + 1, b, Nat.succ_lt_succ hj, hb, hx⟩
      · rintro ⟨j, b, hj, hb, hx⟩
        cases j with
        | zero =>
          obtain rfl : (target, value) = b := Option.some.inj hb
          exact Or.inl hx
        | succ j => exact Or.inr ⟨j, b, Nat.lt_of_succ_lt_succ hj, hb, hx⟩

/-- Where all declarations are plain, nothing is left for the second round. -/
theorem statements_eq_nil {source : List Char} {p : Progress} {bodies : List Tree}
    (h : ∀ body ∈ bodies, (plainAssignment? body).isSome) :
    statements source p bodies = ([], p) := by
  induction bodies with
  | nil => rfl
  | cons body bodies ih =>
    obtain ⟨a, ha⟩ := Option.isSome_iff_exists.mp (h body List.mem_cons_self)
    rw [statements, ha]
    exact ih fun b hb => h b (List.mem_cons_of_mem _ hb)

end Progress

namespace Layered

variable {statements : List Tree} {source : List Char} {referred : List String}

/-- What the analysis starts from. -/
def start (statements : List Tree) : Progress :=
  let scopes := ScopeTree.build (ordinaryStatements statements)
  ⟨scopes.root.names, rootMutations scopes (ordinaryStatements statements), []⟩

/-- Where all declarations are plain, the analysis is over after the first round. -/
theorem analyze_eq (hplain : ∀ body ∈ reactiveBodies statements, (plainAssignment? body).isSome) :
    (analyzeStatements source statements referred).reactive
        = (Progress.assignments source (start statements) (reactiveBodies statements)).2.reactive
      ∧ (analyzeStatements source statements referred).responsive
        = (Progress.assignments source (start statements) (reactiveBodies statements)).1.map
          (Declaration.restrict (analyzeStatements source statements referred).reactive) := by
  unfold analyzeStatements
  simp only [Progress.statements_eq_nil hplain, List.append_nil]
  exact ⟨rfl, rfl⟩

/-- The reactive names: those that ordinary statements write, and every target. -/
theorem mem_reactive (h : Layered statements) {x : String} :
    x ∈ (analyzeStatements source statements referred).reactive ↔
      x ∈ (start statements).reactive
        ∨ ∃ (i : Nat) (a : Tree × Tree), (plainAssignments statements)[i]? = some a
          ∧ x ∈ a.1.targetNames := by
  rw [(analyze_eq h.plain).1, Progress.mem_reactive_assignments]
  refine or_congr_right ⟨?_, ?_⟩
  · rintro ⟨a, ha, hx⟩
    obtain ⟨i, hi⟩ := List.mem_iff_getElem?.mp ha
    exact ⟨i, a, hi, hx⟩
  · rintro ⟨i, a, hi, hx⟩
    exact ⟨a, List.mem_of_getElem? hi, hx⟩

/-- A declaration writes the names of its target and depends on the reactive names that its value
reads. -/
theorem getElem?_responsive (h : Layered statements) {i : Nat} {d : Declaration}
    (hd : (analyzeStatements source statements referred).responsive[i]? = some d) :
    ∃ a, (plainAssignments statements)[i]? = some a ∧ d.assignees = a.1.targetNames
      ∧ ∀ x, x ∈ d.dependencies ↔
        x ∈ a.2.freeNames ∧ x ∈ (analyzeStatements source statements referred).reactive := by
  rw [(analyze_eq h.plain).2, List.getElem?_map] at hd
  obtain ⟨d', hd', rfl⟩ := Option.map_eq_some_iff.mp hd
  obtain ⟨a, ha, hassignees, hreads⟩ := Progress.getElem?_assignments hd'
  refine ⟨a, ha, hassignees, fun x => ?_⟩
  have hrestrict (reactive : List String) : x ∈ (d'.restrict reactive).dependencies
      ↔ x ∈ d'.dependencies ∧ x ∈ reactive := by
    simp [Declaration.restrict]
  rw [hrestrict, hreads x]
  refine ⟨fun hx => ⟨hx.1.1, hx.2⟩, fun hx => ⟨⟨hx.1, ?_⟩, hx.2⟩⟩
  -- A name that becomes reactive later on is the target of a declaration that is not read here.
  rcases h.mem_reactive.mp hx.2 with hroot | ⟨j, b, hb, hxb⟩
  · exact Or.inl hroot
  · exact Or.inr ⟨j, b, h.forward hb ha hxb hx.1, hb, hxb⟩

end Layered

/-! ## Names that are assigned once -/

/-- Every reactive declaration is a plain assignment, and the names that it assigns are written by
no ordinary statement and assigned by no other declaration. -/
structure AssignedOnce (statements : List Tree) : Prop where
  plain : ∀ body ∈ reactiveBodies statements, (plainAssignment? body).isSome
  unwritten : ∀ a ∈ plainAssignments statements, ∀ x ∈ a.1.targetNames,
    x ∉ rootMutations (ScopeTree.build (ordinaryStatements statements))
      (ordinaryStatements statements)
  once : (plainAssignments statements).Pairwise fun a b =>
    ∀ x ∈ a.1.targetNames, x ∉ b.1.targetNames

instance (statements : List Tree) : Decidable (AssignedOnce statements) :=
  decidable_of_iff (_ ∧ _ ∧ _)
    ⟨fun h => ⟨h.1, h.2.1, h.2.2⟩, fun h => ⟨h.plain, h.unwritten, h.once⟩⟩

namespace AssignedOnce

variable {statements : List Tree}

/-- A name has one place where it is assigned. -/
theorem eq_of_mem_targetNames (h : AssignedOnce statements) {i j : Nat} {a b : Tree × Tree}
    {x : String} (ha : (plainAssignments statements)[i]? = some a)
    (hb : (plainAssignments statements)[j]? = some b) (hxa : x ∈ a.1.targetNames)
    (hxb : x ∈ b.1.targetNames) : i = j := by
  obtain ⟨hi, rfl⟩ := List.getElem?_eq_some_iff.mp ha
  obtain ⟨hj, rfl⟩ := List.getElem?_eq_some_iff.mp hb
  have honce := List.pairwise_iff_getElem.mp h.once
  rcases Nat.lt_trichotomy i j with hlt | heq | hgt
  · exact absurd hxb (honce i j hi hj hlt x hxa)
  · exact heq
  · exact absurd hxa (honce j i hj hi hgt x hxb)

/-- A declaration depends on earlier ones only, whatever its value reads: a name that is reactive
when the analysis comes to the declaration, and that a declaration assigns, was assigned before. -/
theorem lt_of_mem_dependencies (h : AssignedOnce statements) {source : List Char}
    {referred : List String} {i j : Nat} {d d' : Declaration} {x : String}
    (hd : (analyzeStatements source statements referred).responsive[i]? = some d)
    (hd' : (analyzeStatements source statements referred).responsive[j]? = some d')
    (hx : x ∈ d.assignees) (hx' : x ∈ d'.dependencies) : i < j := by
  rw [(Layered.analyze_eq h.plain).2, List.getElem?_map] at hd hd'
  obtain ⟨e, he, rfl⟩ := Option.map_eq_some_iff.mp hd
  obtain ⟨e', he', rfl⟩ := Option.map_eq_some_iff.mp hd'
  obtain ⟨a, ha, hassignees, -⟩ := Progress.getElem?_assignments he
  obtain ⟨b, -, -, hreads⟩ := Progress.getElem?_assignments he'
  have hxa : x ∈ a.1.targetNames := hassignees ▸ hx
  rcases ((hreads x).mp (List.mem_filter.mp hx').1).2 with hroot | ⟨k, b', hk, hb', hxb⟩
  · exact absurd hroot (h.unwritten a (List.mem_of_getElem? ha) x hxa)
  · rw [h.eq_of_mem_targetNames ha hb' hxa hxb]
    exact hk

end AssignedOnce

end Reactive
