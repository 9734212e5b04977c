/-
  How the analysis grows its sets.

  The analysis starts from the names that ordinary statements write and goes through the
  reactive declarations, plain assignments first. Names only join: what is reactive stays
  reactive, and a hoisted name is reactive from the moment it is hoisted.
-/
import Reactive.Facts.Analyze

namespace Reactive

open Script

/-! ## Adding names -/

theorem mem_addName {names : List String} {name x : String} :
    x ∈ addName names name ↔ x ∈ names ∨ x = name := by
  unfold addName
  split
  · rename_i h
    have hmem : name ∈ names := by simpa using h
    constructor
    · exact Or.inl
    · rintro (hx | rfl)
      · exact hx
      · exact hmem
  · simp

theorem mem_addNames {names more : List String} {x : String} :
    x ∈ addNames names more ↔ x ∈ names ∨ x ∈ more := by
  unfold addNames
  induction more generalizing names with
  | nil => simp
  | cons name more ih => rw [List.foldl_cons, ih, mem_addName, List.mem_cons, or_assoc]

namespace Progress

variable {source : List Char} {p : Progress} {body : Tree} {bodies : List Tree}

/-! ## Going through the declarations -/

theorem assignments_cons_none (h : plainAssignment? body = none) :
    assignments source p (body :: bodies) = assignments source p bodies := by
  rw [assignments, h]

theorem assignments_cons_some {target value : Tree}
    (h : plainAssignment? body = some (target, value)) :
    assignments source p (body :: bodies) =
      let rest := assignments source (target.targetNames.foldl assigned p) bodies
      ((assignment source p body target value).1 :: rest.1, rest.2) := by
  rw [assignments, h]
  rfl

theorem statements_cons_some {a : Tree × Tree} (h : plainAssignment? body = some a) :
    statements source p (body :: bodies) = statements source p bodies := by
  rw [statements, h]

theorem statements_cons_none (h : plainAssignment? body = none) :
    statements source p (body :: bodies) =
      let rest := statements source (statement source p body).2 bodies
      ((statement source p body).1 :: rest.1, rest.2) := by
  rw [statements, h]

/-- What every assigned name keeps, the plain assignments keep. -/
theorem assignments_keeps {P : Progress → Prop} (hstep : ∀ p name, P p → P (p.assigned name))
    (hp : P p) : P (assignments source p bodies).2 := by
  have hnames : ∀ (names : List String) {p : Progress}, P p → P (names.foldl assigned p) := by
    intro names
    induction names with
    | nil => exact fun hp => hp
    | cons name names ih => exact fun hp => ih (hstep _ name hp)
  induction bodies generalizing p with
  | nil => exact hp
  | cons body bodies ih =>
    cases hbody : plainAssignment? body with
    | none =>
      rw [assignments_cons_none hbody]
      exact ih hp
    | some a =>
      rw [assignments_cons_some hbody]
      exact ih (hnames _ hp)

/-- What every other declaration keeps, all of them keep. -/
theorem statements_keeps {P : Progress → Prop}
    (hstep : ∀ p body, P p → P (statement source p body).2) (hp : P p) :
    P (statements source p bodies).2 := by
  induction bodies generalizing p with
  | nil => exact hp
  | cons body bodies ih =>
    cases hbody : plainAssignment? body with
    | some a =>
      rw [statements_cons_some hbody]
      exact ih hp
    | none =>
      rw [statements_cons_none hbody]
      exact ih (hstep p body hp)

/-! ## What joins -/

@[simp] theorem mem_reactive_assigned {name x : String} :
    x ∈ (p.assigned name).reactive ↔ x ∈ p.reactive ∨ x = name := mem_addName

/-- The reactive names after the targets of a plain assignment have joined. -/
theorem mem_reactive_foldl_assigned {names : List String} {x : String} :
    x ∈ (names.foldl assigned p).reactive ↔ x ∈ p.reactive ∨ x ∈ names := by
  induction names generalizing p with
  | nil => simp
  | cons name names ih => rw [List.foldl_cons, ih, mem_reactive_assigned, List.mem_cons, or_assoc]

/-- The reactive names after the plain assignments: those before, and every target. -/
theorem mem_reactive_assignments {x : String} :
    x ∈ (assignments source p bodies).2.reactive ↔
      x ∈ p.reactive ∨ ∃ a ∈ bodies.filterMap plainAssignment?, x ∈ a.1.targetNames := by
  induction bodies generalizing p with
  | nil => simp [assignments]
  | cons body bodies ih =>
    cases hbody : plainAssignment? body with
    | none => rw [assignments_cons_none hbody, List.filterMap_cons_none hbody, ih]
    | some a =>
      rw [assignments_cons_some hbody, List.filterMap_cons_some hbody]
      dsimp only
      rw [ih, mem_reactive_foldl_assigned]
      simp only [List.mem_cons, exists_eq_or_imp, or_assoc]

/-- The other declarations only add reactive names. -/
theorem reactive_statements {x : String} (hx : x ∈ p.reactive) :
    x ∈ (statements source p bodies).2.reactive :=
  statements_keeps (P := fun p => x ∈ p.reactive)
    (fun _ _ hx => mem_addNames.mpr (Or.inl hx)) hx

/-! ## Hoisted names are reactive -/

/-- Every hoisted name is reactive. -/
def HoistedReactive (p : Progress) : Prop := ∀ x ∈ p.hoisted, x ∈ p.reactive

theorem HoistedReactive.assigned (h : p.HoistedReactive) (name : String) :
    (p.assigned name).HoistedReactive := by
  intro x hx
  rw [mem_reactive_assigned]
  simp only [Progress.assigned] at hx
  split at hx
  · exact Or.inl (h x hx)
  · rcases List.mem_append.mp hx with hx | hx
    · exact Or.inl (h x hx)
    · exact Or.inr (List.mem_singleton.mp hx)

theorem HoistedReactive.statement (h : p.HoistedReactive) (body : Tree) :
    (statement source p body).2.HoistedReactive :=
  fun x hx => mem_addNames.mpr (Or.inl (h x hx))

end Progress

/-! ## The facts of a script -/

section

variable (source : List Char) (statements : List Tree) (referred : List String)

/-- Names that ordinary statements write are reactive. -/
theorem reactive_of_rootMutations {x : String}
    (hx : x ∈ rootMutations (ScopeTree.build (ordinaryStatements statements))
      (ordinaryStatements statements)) :
    x ∈ (analyzeStatements source statements referred).reactive :=
  Progress.reactive_statements (Progress.mem_reactive_assignments.mpr (Or.inl hx))

/-- The assignees are the names that declarations write. -/
theorem mem_assignees {x : String} :
    x ∈ (analyzeStatements source statements referred).assignees ↔
      ∃ d ∈ (analyzeStatements source statements referred).responsive, x ∈ d.assignees := by
  show x ∈ List.eraseDups _ ↔ _
  rw [List.mem_eraseDups, List.mem_flatMap]
  rfl

/-- Hoisted names are reactive. -/
theorem reactive_of_hoisted {x : String}
    (hx : x ∈ (analyzeStatements source statements referred).hoisted) :
    x ∈ (analyzeStatements source statements referred).reactive := by
  refine Progress.statements_keeps (P := Progress.HoistedReactive)
    (fun p body h => h.statement body) ?_ x hx
  refine Progress.assignments_keeps (fun p name h => h.assigned name) ?_
  exact fun y hy => absurd hy (by simp)

end

end Reactive
