/-
  What the visits say about the scopes.

  Nothing that is built is taken back: scopes keep their numbers, kinds and parents, and names only
  join. So the scopes in the end are those in the beginning together with what the visits added:
  one scope for every visited node that opens one, numbered in the order of the visits, and the
  names that visited nodes put somewhere.
-/
import Reactive.Proofs.Script.Visits
import Mathlib.Data.List.Find

namespace Reactive.Script

namespace ScopeTree

/-! ## Outlines -/

/-- Kinds and parents of the scopes. -/
def outline (t : ScopeTree) : List (ScopeKind × Option Nat) :=
  t.scopes.map fun s => (s.kind, s.parent)

theorem length_outline (t : ScopeTree) : t.outline.length = t.scopes.length := List.length_map _

theorem outline_scope? (t : ScopeTree) (id : Nat) :
    t.outline[id]? = (t.scope? id).map fun s => (s.kind, s.parent) := List.getElem?_map

@[simp] theorem outline_opened (t : ScopeTree) (kind : ScopeKind) (parent : Nat) (owner : Span) :
    (t.opened kind parent owner).outline = t.outline ++ [(kind, some parent)] := by
  simp [outline, opened]

@[simp] theorem owners_opened (t : ScopeTree) (kind : ScopeKind) (parent : Nat) (owner : Span) :
    (t.opened kind parent owner).owners = (owner, t.scopes.length) :: t.owners := rfl

/-- Declaring names in a scope. -/
def declareIn (names : List (String × Span)) (kind : DeclarationKind) (s : Scope) : Scope :=
  names.foldl (fun s n => s.declare n.1 ⟨kind, n.2⟩) s

theorem outline_declareIn (names : List (String × Span)) (kind : DeclarationKind) (s : Scope) :
    (declareIn names kind s).kind = s.kind ∧ (declareIn names kind s).parent = s.parent := by
  induction names generalizing s with
  | nil => exact ⟨rfl, rfl⟩
  | cons n names ih =>
    obtain ⟨hkind, hparent⟩ := ih (s.declare n.1 ⟨kind, n.2⟩)
    have hdeclare : (s.declare n.1 ⟨kind, n.2⟩).kind = s.kind
        ∧ (s.declare n.1 ⟨kind, n.2⟩).parent = s.parent := by
      unfold Scope.declare
      split <;> exact ⟨rfl, rfl⟩
    exact ⟨hkind.trans hdeclare.1, hparent.trans hdeclare.2⟩

theorem declares_declare {s : Scope} {name : String} {site : Site} {x : String} :
    (s.declare name site).declares x = true ↔ s.declares x = true ∨ x = name := by
  unfold Scope.declare
  split
  · rename_i h
    constructor
    · exact Or.inl
    · rintro (hx | rfl)
      · exact hx
      · exact h
  · simp [Scope.declares, eq_comm (a := x)]

theorem declares_declareIn {names : List (String × Span)} {kind : DeclarationKind} {s : Scope}
    {x : String} :
    (declareIn names kind s).declares x = true ↔ s.declares x = true ∨ x ∈ names.map (·.1) := by
  induction names generalizing s with
  | nil => simp [declareIn]
  | cons n names ih =>
    show (declareIn names kind (s.declare n.1 ⟨kind, n.2⟩)).declares x = true ↔ _
    rw [ih, declares_declare, List.map_cons, List.mem_cons, or_assoc]

theorem declared_eq (t : ScopeTree) (id : Nat) (names : List (String × Span))
    (kind : DeclarationKind) :
    t.declared id names kind = { t with scopes := t.scopes.modify id (declareIn names kind) } := rfl

@[simp] theorem outline_declared (t : ScopeTree) (id : Nat) (names : List (String × Span))
    (kind : DeclarationKind) : (t.declared id names kind).outline = t.outline := by
  refine List.ext_getElem? fun j => ?_
  rw [outline_scope?, outline_scope?, declared_eq, scope?, scope?, List.getElem?_modify]
  cases t.scopes[j]? with
  | none => rfl
  | some s =>
    obtain ⟨hkind, hparent⟩ := outline_declareIn names kind s
    by_cases hj : id = j <;> simp [hj, hkind, hparent]

@[simp] theorem owners_declared (t : ScopeTree) (id : Nat) (names : List (String × Span))
    (kind : DeclarationKind) : (t.declared id names kind).owners = t.owners := rfl

theorem declaresAt_declared {t : ScopeTree} {id : Nat} {names : List (String × Span)}
    {kind : DeclarationKind} (hid : id < t.scopes.length) {j : Nat} {x : String} :
    (t.declared id names kind).declaresAt x j = true ↔
      t.declaresAt x j = true ∨ j = id ∧ x ∈ names.map (·.1) := by
  unfold declaresAt scope?
  rw [declared_eq, List.getElem?_modify]
  by_cases hj : id = j
  · subst hj
    rw [List.getElem?_eq_getElem hid]
    simp [declares_declareIn]
  · cases t.scopes[j]? <;> simp [hj, Ne.symm hj]

theorem declaresAt_opened {t : ScopeTree} {kind : ScopeKind} {parent : Nat} {owner : Span}
    {j : Nat} {x : String} :
    (t.opened kind parent owner).declaresAt x j = t.declaresAt x j := by
  unfold declaresAt scope? opened
  rcases Nat.lt_trichotomy j t.scopes.length with hj | rfl | hj
  · rw [List.getElem?_append_left hj]
  · simp [Scope.declares]
  · rw [List.getElem?_eq_none (by simp; omega), List.getElem?_eq_none (by omega)]

/-- The names of several groups. -/
def groupNames (groups : List (List (String × Span) × DeclarationKind)) : List String :=
  groups.flatMap fun g => g.1.map (·.1)

section

variable (t : ScopeTree) (id : Nat) (groups : List (List (String × Span) × DeclarationKind))

@[simp] theorem outline_declaredAll : (t.declaredAll id groups).outline = t.outline := by
  induction groups generalizing t with
  | nil => rfl
  | cons g groups ih => exact (ih (t.declared id g.1 g.2)).trans (outline_declared ..)

@[simp] theorem owners_declaredAll : (t.declaredAll id groups).owners = t.owners := by
  induction groups generalizing t with
  | nil => rfl
  | cons g groups ih => exact ih (t.declared id g.1 g.2)

@[simp] theorem length_declaredAll :
    (t.declaredAll id groups).scopes.length = t.scopes.length := by
  rw [← length_outline, outline_declaredAll, length_outline]

theorem declaresAt_declaredAll (hid : id < t.scopes.length) {j : Nat} {x : String} :
    (t.declaredAll id groups).declaresAt x j = true ↔
      t.declaresAt x j = true ∨ j = id ∧ x ∈ groupNames groups := by
  induction groups generalizing t with
  | nil => simp [declaredAll, groupNames]
  | cons g groups ih =>
    have hlength : id < (t.declared id g.1 g.2).scopes.length := by
      rw [← length_outline, outline_declared, length_outline]
      exact hid
    show ((t.declared id g.1 g.2).declaredAll id groups).declaresAt x j = true ↔ _
    have hnames : x ∈ groupNames (g :: groups) ↔ x ∈ g.1.map (·.1) ∨ x ∈ groupNames groups := by
      rw [groupNames, List.flatMap_cons, List.mem_append]
      rfl
    rw [ih _ hlength, declaresAt_declared hid, hnames, or_assoc, ← and_or_left]

end

/-! ## Look-ups that only depend on outlines -/

section

variable {t u : ScopeTree}

/-- A scope that is there keeps its kind and its parent. -/
theorem exists_scope_of_extends (h : t.outline <+: u.outline) {id : Nat}
    (hid : id < t.scopes.length) : ∃ before after, t.scope? id = some before
      ∧ u.scope? id = some after ∧ after.kind = before.kind ∧ after.parent = before.parent := by
  have hget : t.scope? id = some t.scopes[id] := List.getElem?_eq_getElem hid
  have hbefore := outline_scope? t id
  rw [hget, Option.map_some] at hbefore
  have hafter := outline_scope? u id
  obtain ⟨added, hadded⟩ := h
  rw [← hadded, List.getElem?_append_left (by rwa [length_outline]), hbefore] at hafter
  obtain ⟨after, hu, heq⟩ := Option.map_eq_some_iff.mp hafter.symm
  obtain ⟨hkind, hparent⟩ := Prod.mk.inj heq
  exact ⟨_, after, hget, hu, hkind, hparent⟩

/-- The scopes around a scope stay the same when scopes are added. -/
theorem chain_of_extends (h : t.outline <+: u.outline) {id : Nat} (hid : id < t.scopes.length) :
    u.chain id = t.chain id := by
  induction id using Nat.strongRecOn with
  | _ id ih =>
    obtain ⟨before, after, hbefore, hafter, -, hparent⟩ := exists_scope_of_extends h hid
    rw [chain, chain, hbefore, hafter]
    dsimp only
    rw [hparent]
    cases before.parent with
    | none => rfl
    | some p =>
      dsimp only
      split
      · rw [ih p ‹_› (by omega)]
      · rfl

theorem hoistTarget_of_extends (h : t.outline <+: u.outline) {id : Nat}
    (hid : id < t.scopes.length) : u.hoistTarget id = t.hoistTarget id := by
  have hhoists : ∀ k ∈ t.chain id, u.hoistsAt k = t.hoistsAt k := by
    intro k hk
    obtain ⟨before, after, hbefore, hafter, hkind, -⟩ :=
      exists_scope_of_extends h (Nat.lt_of_le_of_lt (t.le_of_mem_chain hk) hid)
    rw [hoistsAt, hoistsAt, hbefore, hafter]
    dsimp only
    rw [hkind]
  rw [hoistTarget, hoistTarget, chain_of_extends h hid, List.find?_congr hhoists]

theorem outerTarget_of_extends (h : t.outline <+: u.outline) {id : Nat}
    (hid : id < t.scopes.length) (l : Label) : u.outerTarget l id = t.outerTarget l id := by
  unfold outerTarget
  split
  · exact hoistTarget_of_extends h hid
  · rfl

/-- Outer names go to a scope that exists. -/
theorem outerTarget_lt {id : Nat} (hid : id < t.scopes.length) (l : Label) :
    t.outerTarget l id < t.scopes.length := by
  unfold outerTarget
  split
  · unfold hoistTarget
    cases hfind : (t.chain id).find? t.hoistsAt with
    | none => exact Nat.zero_lt_of_lt hid
    | some k =>
      exact Nat.lt_of_le_of_lt (t.le_of_mem_chain (List.mem_of_find?_eq_some hfind)) hid
  · exact hid

end

end ScopeTree

/-! ## What visits add -/

open ScopeTree

/-- Kind and parent of the scope that a visit adds. -/
def Visited.outline (v : Visited) : ScopeKind × Option Nat :=
  (v.node.label.scopeKind?.getD .root, some v.scope)

/-- A visit puts a name into a scope. -/
def Visited.Puts (t : ScopeTree) (v : Visited) (scope : Nat) (x : String) : Prop :=
  if v.node.label.isImport then scope = rootId ∧ x ∈ v.node.introduced.map (·.1)
  else scope = t.outerTarget v.node.label v.scope
      ∧ x ∈ groupNames (outerNames v.node.label v.node.children)
    ∨ scope = v.inner ∧ x ∈ groupNames (innerNames v.node.label v.node.children)

/-- Scopes before and after some visits. -/
structure Grown (before : ScopeTree) (visits : List Visited) (after : ScopeTree) : Prop where
  outline : after.outline = before.outline ++ (openers visits).map Visited.outline
  owners : after.owners
    = ((openers visits).map fun v => (v.node.span, v.inner)).reverse ++ before.owners
  /-- Scopes are numbered in the order in which they open. -/
  numbers : (openers visits).map (·.inner)
    = List.range' before.scopes.length (openers visits).length
  scope_lt : ∀ v ∈ visits, v.scope < after.scopes.length
  scope_lt_inner : ∀ v ∈ visits, v.opens = true → v.scope < v.inner
  inner_eq_scope : ∀ v ∈ visits, v.opens = false → v.inner = v.scope
  /-- The names of a scope are those that it had and those that visits put there. -/
  names : ∀ j x, after.declaresAt x j = true ↔
    before.declaresAt x j = true ∨ ∃ v ∈ visits, v.Puts after j x

namespace Grown

variable {a b c : ScopeTree} {visits more : List Visited}

theorem outline_extends (h : Grown a visits b) : a.outline <+: b.outline :=
  ⟨_, h.outline.symm⟩

theorem length_eq (h : Grown a visits b) :
    b.scopes.length = a.scopes.length + (openers visits).length := by
  rw [← length_outline, h.outline, List.length_append, length_outline, List.length_map]

theorem mem_numbers (h : Grown a visits b) {v : Visited} (hv : v ∈ visits)
    (hopens : v.opens = true) : a.scopes.length ≤ v.inner ∧ v.inner < b.scopes.length := by
  have hmem : v.inner ∈ (openers visits).map (·.inner) :=
    List.mem_map_of_mem (mem_openers.mpr ⟨hv, hopens⟩)
  rw [h.numbers, List.mem_range'_1, ← h.length_eq] at hmem
  exact hmem

/-- Every scope that has been added was opened by a visit. -/
theorem exists_opener (h : Grown a visits b) {id : Nat} (hid : a.scopes.length ≤ id)
    (hlt : id < b.scopes.length) : ∃ v ∈ visits, v.opens = true ∧ v.inner = id := by
  have hmem : id ∈ (openers visits).map (·.inner) := by
    rw [h.numbers, List.mem_range'_1, ← h.length_eq]
    exact ⟨hid, hlt⟩
  obtain ⟨v, hv, rfl⟩ := List.mem_map.mp hmem
  obtain ⟨hv, hopens⟩ := mem_openers.mp hv
  exact ⟨v, hv, hopens, rfl⟩

theorem inner_lt (h : Grown a visits b) {v : Visited} (hv : v ∈ visits) :
    v.inner < b.scopes.length := by
  cases hopens : v.opens with
  | true => exact (h.mem_numbers hv hopens).2
  | false =>
    rw [h.inner_eq_scope v hv hopens]
    exact h.scope_lt v hv

/-- Different visits open different scopes. -/
theorem eq_of_inner_eq (h : Grown a visits b) {v w : Visited} (hv : v ∈ visits) (hw : w ∈ visits)
    (hvopens : v.opens = true) (hwopens : w.opens = true) (heq : v.inner = w.inner) : v = w := by
  have hnodup : ((openers visits).map (·.inner)).Nodup := h.numbers ▸ List.nodup_range'
  exact List.inj_on_of_nodup_map hnodup (mem_openers.mpr ⟨hv, hvopens⟩)
    (mem_openers.mpr ⟨hw, hwopens⟩) heq

/-- The scope that a visit opens has the kind of the visited node and the scope around it as its
parent. -/
theorem outline_inner (h : Grown a visits b) {v : Visited} (hv : v ∈ visits)
    (hopens : v.opens = true) : b.outline[v.inner]? = some v.outline := by
  obtain ⟨k, hk⟩ := List.getElem?_of_mem (mem_openers.mpr ⟨hv, hopens⟩)
  have hklt : k < (openers visits).length := (List.getElem?_eq_some_iff.mp hk).1
  have hnumber : v.inner = a.outline.length + k := by
    have hinner : ((openers visits).map (·.inner))[k]? = some v.inner := by simp [hk]
    rw [h.numbers, List.getElem?_range' hklt, Option.some_inj] at hinner
    rw [length_outline]
    omega
  rw [h.outline, hnumber, List.getElem?_append_right (Nat.le_add_right _ _),
    Nat.add_sub_cancel_left, List.getElem?_map, hk, Option.map_some]

theorem exists_scope_inner (h : Grown a visits b) {v : Visited} (hv : v ∈ visits)
    (hopens : v.opens = true) :
    ∃ s, b.scope? v.inner = some s ∧ v.node.label.scopeKind? = some s.kind
      ∧ s.parent = some v.scope := by
  have houtline := outline_scope? b v.inner
  rw [h.outline_inner hv hopens] at houtline
  obtain ⟨s, hs, heq⟩ := Option.map_eq_some_iff.mp houtline.symm
  obtain ⟨hkind, hparent⟩ := Prod.mk.inj heq
  obtain ⟨kind, hlabel⟩ := Option.isSome_iff_exists.mp (show v.node.label.scopeKind?.isSome from hopens)
  rw [hlabel, Option.getD_some] at hkind
  exact ⟨s, hs, by rw [hlabel, hkind], hparent⟩

theorem nil (a : ScopeTree) : Grown a [] a where
  outline := (List.append_nil _).symm
  owners := rfl
  numbers := rfl
  scope_lt v h := absurd h (by simp)
  scope_lt_inner v h := absurd h (by simp)
  inner_eq_scope v h := absurd h (by simp)
  names j x := by simp

theorem append (h : Grown a visits b) (hmore : Grown b more c) : Grown a (visits ++ more) c where
  outline := by
    rw [hmore.outline, h.outline, openers_append, List.map_append, List.append_assoc]
  owners := by
    rw [hmore.owners, h.owners, openers_append, List.map_append, List.reverse_append,
      List.append_assoc]
  numbers := by
    rw [openers_append, List.map_append, h.numbers, hmore.numbers, h.length_eq,
      List.range'_append_1, List.length_append]
  scope_lt v hv := by
    rcases List.mem_append.mp hv with hv | hv
    · have := h.scope_lt v hv
      have := hmore.length_eq
      omega
    · exact hmore.scope_lt v hv
  scope_lt_inner v hv := by
    rcases List.mem_append.mp hv with hv | hv
    · exact h.scope_lt_inner v hv
    · exact hmore.scope_lt_inner v hv
  inner_eq_scope v hv := by
    rcases List.mem_append.mp hv with hv | hv
    · exact h.inner_eq_scope v hv
    · exact hmore.inner_eq_scope v hv
  names j x := by
    -- Where a name goes is settled by the scopes that are there when it is put.
    have hputs : ∀ v ∈ visits, v.Puts c j x ↔ v.Puts b j x := by
      intro v hv
      unfold Visited.Puts
      rw [outerTarget_of_extends hmore.outline_extends (h.scope_lt v hv)]
    rw [hmore.names, h.names, or_assoc]
    refine or_congr_right ⟨?_, ?_⟩
    · rintro (⟨v, hv, hx⟩ | ⟨v, hv, hx⟩)
      · exact ⟨v, List.mem_append_left _ hv, (hputs v hv).mpr hx⟩
      · exact ⟨v, List.mem_append_right _ hv, hx⟩
    · rintro ⟨v, hv, hx⟩
      rcases List.mem_append.mp hv with hv | hv
      · exact Or.inl ⟨v, hv, (hputs v hv).mp hx⟩
      · exact Or.inr ⟨v, hv, hx⟩

/-- The addresses of visits do not matter. -/
theorem below (h : Grown a visits b) (i : Nat) : Grown a (visits.map (Visited.below i)) b := by
  have hopeners := openers_below i visits
  have hmem : ∀ v ∈ visits.map (Visited.below i), ∃ u ∈ visits, u.below i = v :=
    fun v hv => List.mem_map.mp hv
  constructor
  · rw [h.outline, hopeners, List.map_map]
    rfl
  · rw [h.owners, hopeners, List.map_map]
    rfl
  · rw [hopeners, List.map_map, List.length_map, ← h.numbers]
    rfl
  · intro v hv
    obtain ⟨u, hu, rfl⟩ := hmem v hv
    exact h.scope_lt u hu
  · intro v hv
    obtain ⟨u, hu, rfl⟩ := hmem v hv
    exact h.scope_lt_inner u hu
  · intro v hv
    obtain ⟨u, hu, rfl⟩ := hmem v hv
    exact h.inner_eq_scope u hu
  · intro j x
    rw [h.names]
    refine or_congr_right ⟨?_, ?_⟩
    · rintro ⟨v, hv, hx⟩
      exact ⟨v.below i, List.mem_map_of_mem hv, hx⟩
    · rintro ⟨v, hv, hx⟩
      obtain ⟨u, hu, rfl⟩ := hmem v hv
      exact ⟨u, hu, hx⟩

end Grown

section

variable {l : Label} {a : ScopeTree} {current : Nat} (s : Span) (cs : List Tree)

theorem opens_of_isImport (h : l.isImport) : l.opens = false := by
  cases l <;> simp_all [Label.isImport, Label.opens, Label.scopeKind?]

/-- Only nodes that open a scope declare names inside. -/
theorem innerNames_eq_nil (h : l.scopeKind? = none) : innerNames l cs = [] := by
  unfold innerNames
  split <;> first | rfl | exact absurd h (by simp [Label.scopeKind?])

theorem grown_import (h : l.isImport) (hcurrent : current < a.scopes.length) :
    Grown a [⟨[], .node l s cs, current, current⟩]
      (a.declared rootId (Tree.node l s cs).introduced .imported) := by
  have hopeners : openers [⟨[], .node l s cs, current, current⟩] = [] := by
    simp [openers, Visited.opens, opens_of_isImport h]
  constructor
  · simp [hopeners]
  · simp [hopeners]
  · simp [hopeners]
  · simpa [← length_outline] using hcurrent
  · simp [Visited.opens, opens_of_isImport h]
  · simp
  · intro j x
    have hroot : rootId < a.scopes.length := Nat.zero_lt_of_lt hcurrent
    rw [declaresAt_declared hroot]
    simp [Visited.Puts, h]

/-- A node that opens no scope only puts its outer names somewhere. -/
theorem grown_entered_plain (h : l.isImport = false) (hkind : l.scopeKind? = none)
    (hcurrent : current < a.scopes.length) :
    Grown a [⟨[], .node l s cs, current, (a.entered l s cs current).1⟩]
      (a.entered l s cs current).2 := by
  have htarget := outerTarget_lt hcurrent l
  have hopens : l.opens = false := by simp [Label.opens, hkind]
  let outer := a.declaredAll (a.outerTarget l current) (outerNames l cs)
  have hentered : a.entered l s cs current = (current, outer) := by simp only [entered, hkind, outer]
  have hopeners : openers [⟨[], .node l s cs, current, current⟩] = [] := by
    simp [openers, Visited.opens, hopens]
  rw [hentered]
  constructor
  · simp [hopeners, outer]
  · simp [hopeners, outer]
  · simp [hopeners]
  · simpa [outer] using hcurrent
  · simp [Visited.opens, hopens]
  · simp
  · intro j x
    have hsame : outer.outerTarget l current = a.outerTarget l current :=
      outerTarget_of_extends (by simp [outer]) hcurrent l
    rw [declaresAt_declaredAll _ _ _ htarget]
    simp [Visited.Puts, h, hsame, innerNames_eq_nil cs hkind, groupNames]

/-- A node that opens a scope puts its outer names somewhere, and its inner names into the scope. -/
theorem grown_entered_open {kind : ScopeKind} (h : l.isImport = false)
    (hkind : l.scopeKind? = some kind) (hcurrent : current < a.scopes.length) :
    Grown a [⟨[], .node l s cs, current, (a.entered l s cs current).1⟩]
      (a.entered l s cs current).2 := by
  have htarget := outerTarget_lt hcurrent l
  have hopens : l.opens = true := by simp [Label.opens, hkind]
  let outer := a.declaredAll (a.outerTarget l current) (outerNames l cs)
  let inner := (outer.opened kind current s).declaredAll a.scopes.length (innerNames l cs)
  have hlength : outer.scopes.length = a.scopes.length := length_declaredAll ..
  have hentered : a.entered l s cs current = (a.scopes.length, inner) := by
    simp only [entered, hkind, inner, outer, length_declaredAll]
  have houtline : inner.outline = a.outline ++ [(kind, some current)] := by simp [inner, outer]
  have hopened : (outer.opened kind current s).scopes.length = a.scopes.length + 1 := by
    simp [opened, hlength]
  have hopeners : openers [⟨[], .node l s cs, current, a.scopes.length⟩]
      = [⟨[], .node l s cs, current, a.scopes.length⟩] := by
    simp [openers, Visited.opens, hopens]
  rw [hentered]
  constructor
  · rw [houtline, hopeners]
    simp [Visited.outline, hkind]
  · rw [hopeners]
    simp [inner, outer]
  · simp [hopeners]
  · have : inner.scopes.length = a.scopes.length + 1 := by simp [inner, hopened]
    simp only [List.mem_singleton, forall_eq]
    omega
  · simpa [Visited.opens, hopens] using hcurrent
  · simp [Visited.opens, hopens]
  · intro j x
    -- The new scope is none of those that outer names can go to.
    have hsame : inner.outerTarget l current = a.outerTarget l current :=
      outerTarget_of_extends (by simp [houtline]) hcurrent l
    rw [declaresAt_declaredAll _ _ _ (by omega), declaresAt_opened,
      declaresAt_declaredAll _ _ _ htarget]
    simp [Visited.Puts, h, hsame, or_assoc]

theorem grown_entered (h : l.isImport = false) (hcurrent : current < a.scopes.length) :
    Grown a [⟨[], .node l s cs, current, (a.entered l s cs current).1⟩]
      (a.entered l s cs current).2 := by
  cases hkind : l.scopeKind? with
  | none => exact grown_entered_plain s cs h hkind hcurrent
  | some kind => exact grown_entered_open s cs h hkind hcurrent

/-- What trees add one after the other is what all their visits add. -/
theorem grown_parts {ts : List Tree} {inner : Nat} (h : ∀ c ∈ ts, ∀ scopes : ScopeTree,
      inner < scopes.scopes.length →
      Grown scopes (c.recorded inner scopes).1 (c.recorded inner scopes).2)
    (i : Nat) {scopes : ScopeTree} (hinner : inner < scopes.scopes.length) :
    Grown scopes (inTurn Visited.below i (ts.map fun c => c.recorded inner) scopes).1
      (inTurn Visited.below i (ts.map fun c => c.recorded inner) scopes).2 := by
  induction ts generalizing i scopes with
  | nil => exact Grown.nil scopes
  | cons c ts ih =>
    have hfirst := h c List.mem_cons_self scopes hinner
    have hstill : inner < (c.recorded inner scopes).2.scopes.length := by
      have := hfirst.length_eq
      omega
    have hrest := ih (fun d hd => h d (List.mem_cons_of_mem _ hd)) (i + 1) hstill
    exact (hfirst.below i).append hrest

/-- What a tree adds to the scopes is what its visits add. -/
theorem grown_recorded (t : Tree) {current : Nat} {scopes : ScopeTree}
    (hcurrent : current < scopes.scopes.length) :
    Grown scopes (t.recorded current scopes).1 (t.recorded current scopes).2 := by
  induction t using Tree.ind generalizing current scopes with
  | node l s cs ih =>
    by_cases hl : l.isImport
    · rw [Tree.recorded_import hl]
      exact grown_import s cs hl hcurrent
    · rw [Bool.not_eq_true] at hl
      have hentered := grown_entered s cs hl hcurrent
      have hinner : (scopes.entered l s cs current).1
          < (scopes.entered l s cs current).2.scopes.length :=
        hentered.inner_lt (List.mem_singleton_self _)
      have hparts := grown_parts (fun c hc _ => ih c hc) 0 hinner
      rw [Tree.recorded_node hl]
      exact hentered.append hparts

end

/-! ## Scripts -/

/-- The statements of a script as one tree. -/
def scriptTree (statements : List Tree) : Tree := .node .program .none statements

/-- The visits when the scopes of a script are built. -/
def scriptVisits (statements : List Tree) : List Visited :=
  ((scriptTree statements).recorded rootId .start).1

/-- The scopes that are built with a record are the scopes of the script. -/
theorem recorded_scriptTree_snd (statements : List Tree) :
    ((scriptTree statements).recorded rootId .start).2 = ScopeTree.build statements := by
  rw [Tree.recorded_snd, scriptTree, ScopeTree.visit_node rfl]
  rfl

theorem grown_build (statements : List Tree) :
    Grown .start (scriptVisits statements) (ScopeTree.build statements) := by
  rw [← recorded_scriptTree_snd]
  exact grown_recorded _ (by decide)

end Reactive.Script
