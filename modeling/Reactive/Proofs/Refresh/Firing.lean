/-
  Which reactions fire.

  What a refresh computes aside, it is a cascade: a reaction fires when one of the changed names
  triggers it, and a declaration that fires starts a refresh for the names that it writes. Nothing
  is remembered between refreshes, so that a reaction may fire several times; a bound on the nesting
  makes the cascade a function. What a refresh does to a page is what the reactions of its cascade
  do one after the other.

  Where every name is assigned once, declarations trigger later declarations only. The cascade then
  ends, nested no deeper than there are declarations, and fires just what follows from the changed
  names.
-/
import Reactive.Proofs.Emit.Expressions
import Reactive.Proofs.Facts.Layers
import Reactive.Proofs.Refresh.Cascade
import Mathlib.Order.Bounds.Defs

namespace Reactive.Refresh

open Emit Script

/-! ## The cascade -/

/-- What fires inside a reaction that fires: a declaration refreshes the names that it writes. -/
def nested (refresh : List String → Option (List Reaction)) : Reaction → Option (List Reaction)
  | .updateText .. => some []
  | .rerun d => if d.assignees.isEmpty then some [] else refresh d.assignees

/-- Reactions firing one after the other, each followed by what fires inside it. -/
def fireAll (inside : Reaction → Option (List Reaction)) : List Reaction → Option (List Reaction)
  | [] => some []
  | r :: rs => do
    let inner ← inside r
    let rest ← fireAll inside rs
    return r :: (inner ++ rest)

/-- The reactions that a refresh for changed names fires, in order, with a bound on how deep
refreshes are nested. -/
def firings (reactions : List Reaction) : Nat → List String → Option (List Reaction)
  | 0, _ => none
  | k + 1, changed =>
    fireAll (nested (firings reactions k)) (reactions.filter (·.triggeredBy changed))

theorem fireAll_cons {inside : Reaction → Option (List Reaction)} {r : Reaction}
    {rs fired : List Reaction} :
    fireAll inside (r :: rs) = some fired ↔ ∃ inner rest, inside r = some inner
      ∧ fireAll inside rs = some rest ∧ r :: (inner ++ rest) = fired := by
  simp [fireAll, Option.bind_eq_some_iff]

/-- What fires: the reactions themselves, and what fires inside them. -/
theorem mem_fireAll {inside : Reaction → Option (List Reaction)} {rs fired : List Reaction}
    (h : fireAll inside rs = some fired) {r : Reaction} :
    r ∈ fired ↔ r ∈ rs ∨ ∃ r' ∈ rs, ∃ inner, inside r' = some inner ∧ r ∈ inner := by
  induction rs generalizing fired with
  | nil => simp_all [fireAll]
  | cons first rs ih =>
    obtain ⟨inner, rest, hinner, hrest, rfl⟩ := fireAll_cons.mp h
    simp only [List.mem_cons, List.mem_append, ih hrest, exists_eq_or_imp, hinner,
      Option.some.injEq, exists_eq_left']
    tauto

theorem exists_inside {inside : Reaction → Option (List Reaction)} {rs fired : List Reaction}
    (h : fireAll inside rs = some fired) {r : Reaction} (hr : r ∈ rs) :
    ∃ inner, inside r = some inner := by
  induction rs generalizing fired with
  | nil => exact absurd hr (by simp)
  | cons first rs ih =>
    obtain ⟨inner, rest, hinner, hrest, -⟩ := fireAll_cons.mp h
    rcases List.mem_cons.mp hr with rfl | hr
    · exact ⟨inner, hinner⟩
    · exact ih hrest hr

theorem exists_fireAll {inside : Reaction → Option (List Reaction)} {rs : List Reaction}
    (h : ∀ r ∈ rs, ∃ inner, inside r = some inner) : ∃ fired, fireAll inside rs = some fired := by
  induction rs with
  | nil => exact ⟨[], rfl⟩
  | cons first rs ih =>
    obtain ⟨inner, hinner⟩ := h first List.mem_cons_self
    obtain ⟨rest, hrest⟩ := ih fun r hr => h r (List.mem_cons_of_mem _ hr)
    exact ⟨_, fireAll_cons.mpr ⟨inner, rest, hinner, hrest, rfl⟩⟩

/-- What fires stays the same where more of what is inside ends. -/
theorem fireAll_extends {inside inside' : Reaction → Option (List Reaction)}
    (hle : ∀ r inner, inside r = some inner → inside' r = some inner) {rs fired : List Reaction}
    (h : fireAll inside rs = some fired) : fireAll inside' rs = some fired := by
  induction rs generalizing fired with
  | nil => exact h
  | cons first rs ih =>
    obtain ⟨inner, rest, hinner, hrest, rfl⟩ := fireAll_cons.mp h
    exact fireAll_cons.mpr ⟨inner, rest, hle _ _ hinner, ih hrest, rfl⟩

/-- Something fires inside a reaction only if it is a declaration, which then refreshes. -/
theorem exists_of_mem_nested {refresh : List String → Option (List Reaction)}
    {r r' : Reaction} {inner : List Reaction} (h : nested refresh r = some inner)
    (hr' : r' ∈ inner) : ∃ d, r = .rerun d ∧ refresh d.assignees = some inner := by
  cases r with
  | updateText reads handle code =>
    obtain rfl : [] = inner := by simpa [nested] using h
    exact absurd hr' (by simp)
  | rerun d =>
    by_cases hempty : d.assignees.isEmpty = true
    · obtain rfl : [] = inner := by simpa [nested, hempty] using h
      exact absurd hr' (by simp)
    · exact ⟨d, rfl, (if_neg hempty).symm.trans h⟩

theorem firings_succ {reactions fired : List Reaction} {k : Nat} {changed : List String}
    (h : firings reactions k changed = some fired) :
    firings reactions (k + 1) changed = some fired := by
  induction k generalizing changed fired with
  | zero => exact absurd h (by simp [firings])
  | succ k ih =>
    refine fireAll_extends (fun r inner hinner => ?_) h
    cases r with
    | updateText reads handle code => exact hinner
    | rerun d =>
      by_cases hempty : d.assignees.isEmpty = true
      · exact (if_pos hempty).trans ((if_pos hempty).symm.trans hinner)
      · exact (if_neg hempty).trans (ih ((if_neg hempty).symm.trans hinner))

/-- A larger bound changes nothing where a cascade ends. -/
theorem firings_of_le {reactions fired : List Reaction} {k k' : Nat} {changed : List String}
    (h : firings reactions k changed = some fired) (hk : k ≤ k') :
    firings reactions k' changed = some fired := by
  obtain ⟨more, rfl⟩ := Nat.exists_eq_add_of_le hk
  induction more with
  | zero => exact h
  | succ more ih => exact firings_succ (ih (Nat.le_add_right k more))

/-- Exactly those reactions fire that the changed names trigger, or the names that a declaration
writes that fires. -/
theorem mem_firings {reactions fired : List Reaction} {k : Nat} {changed : List String}
    (h : firings reactions k changed = some fired) {r : Reaction} :
    r ∈ fired ↔ r ∈ reactions ∧ (r.triggeredBy changed = true
      ∨ ∃ d, .rerun d ∈ fired ∧ r.triggeredBy d.assignees = true) := by
  induction k generalizing changed fired r with
  | zero => exact absurd h (by simp [firings])
  | succ k ih =>
    have hmem := @mem_fireAll _ _ _ h
    constructor
    · intro hr
      rcases hmem.mp hr with hr | ⟨r', hr', inner, hinner, hr⟩
      · rw [List.mem_filter] at hr
        exact ⟨hr.1, Or.inl hr.2⟩
      · -- It fires inside a declaration that fires itself.
        obtain ⟨d, rfl, hrefresh⟩ := exists_of_mem_nested hinner hr
        obtain ⟨hreactions, htrigger⟩ := (ih hrefresh).mp hr
        refine ⟨hreactions, Or.inr ?_⟩
        rcases htrigger with htrigger | ⟨d', hd', htrigger⟩
        · exact ⟨d, hmem.mpr (Or.inl hr'), htrigger⟩
        · exact ⟨d', hmem.mpr (Or.inr ⟨_, hr', inner, hinner, hd'⟩), htrigger⟩
    · rintro ⟨hreactions, htrigger | ⟨d, hd, htrigger⟩⟩
      · exact hmem.mpr (Or.inl (List.mem_filter.mpr ⟨hreactions, htrigger⟩))
      · rcases hmem.mp hd with hd | ⟨r', hr', inner, hinner, hd⟩
        · obtain ⟨inner, hinner⟩ := exists_inside h hd
          refine hmem.mpr (Or.inr ⟨_, hd, inner, hinner, ?_⟩)
          have hwrites : d.assignees.isEmpty = false := by
            obtain ⟨x, -, hx⟩ := Reaction.triggeredBy_iff.mp htrigger
            cases hassignees : d.assignees with
            | nil => exact absurd (hassignees ▸ hx) (by simp)
            | cons y ys => rfl
          have hrefresh : firings reactions k d.assignees = some inner := by
            simpa [nested, hwrites] using hinner
          exact (ih hrefresh).mpr ⟨hreactions, Or.inl htrigger⟩
        · obtain ⟨d', rfl, hrefresh⟩ := exists_of_mem_nested hinner hd
          exact hmem.mpr (Or.inr ⟨_, hr', inner, hinner,
            (ih hrefresh).mpr ⟨hreactions, Or.inr ⟨d, hd, htrigger⟩⟩⟩)

/-- Whatever is closed under the cascade holds every declaration that fires. -/
theorem mem_of_mem_firings {reactions fired : List Reaction} {k : Nat} {changed : List String}
    (h : firings reactions k changed = some fired) {S : Set Declaration}
    (hchanged : ∀ d, .rerun d ∈ reactions → (Reaction.rerun d).triggeredBy changed = true → d ∈ S)
    (hclosed : ∀ d ∈ S, ∀ d', .rerun d' ∈ reactions →
      (Reaction.rerun d').triggeredBy d.assignees = true → d' ∈ S)
    {d : Declaration} (hd : .rerun d ∈ fired) : d ∈ S := by
  induction k generalizing changed fired d with
  | zero => exact absurd h (by simp [firings])
  | succ k ih =>
    rcases (mem_fireAll h).mp hd with hd | ⟨r, hr, inner, hinner, hd⟩
    · rw [List.mem_filter] at hd
      exact hchanged d hd.1 hd.2
    · obtain ⟨d', rfl, hrefresh⟩ := exists_of_mem_nested hinner hd
      rw [List.mem_filter] at hr
      exact ih hrefresh (hclosed d' (hchanged d' hr.1 hr.2)) hd

/-! ## The bound on the nesting -/

/-- A cascade ends if the cascades inside it do. -/
theorem exists_firings_succ {reactions : List Reaction} {k : Nat} {changed : List String}
    (hnested : ∀ d, .rerun d ∈ reactions → (Reaction.rerun d).triggeredBy changed = true →
      ∃ inner, firings reactions k d.assignees = some inner) :
    ∃ fired, firings reactions (k + 1) changed = some fired := by
  refine exists_fireAll fun r hr => ?_
  rw [List.mem_filter] at hr
  cases r with
  | updateText reads handle code => exact ⟨[], rfl⟩
  | rerun d =>
    obtain ⟨inner, hinner⟩ := hnested d hr.1 hr.2
    by_cases hempty : d.assignees.isEmpty = true
    · exact ⟨[], if_pos hempty⟩
    · exact ⟨inner, (if_neg hempty).trans hinner⟩

/-- Where the names of a declaration trigger declarations of higher ranks only, the ranks bound the
nesting. -/
theorem exists_firings {reactions : List Reaction} (rank : Declaration → Nat) (n : Nat)
    (hforward : ∀ {d d' x}, .rerun d ∈ reactions → .rerun d' ∈ reactions → x ∈ d.assignees →
      x ∈ d'.dependencies → rank d < rank d')
    (hrank : ∀ {d}, .rerun d ∈ reactions → rank d < n) {k : Nat} {changed : List String}
    (hdeep : ∀ d, .rerun d ∈ reactions → (Reaction.rerun d).triggeredBy changed = true →
      n ≤ rank d + k) :
    ∃ fired, firings reactions (k + 1) changed = some fired := by
  induction k generalizing changed with
  | zero =>
    refine exists_firings_succ fun d hd htrigger => ?_
    have := hdeep d hd htrigger
    have := hrank hd
    omega
  | succ k ih =>
    refine exists_firings_succ fun d hd htrigger => ih fun d' hd' htrigger' => ?_
    -- What the names of a declaration trigger ranks above it, and needs one level less.
    obtain ⟨x, hread, hwritten⟩ := Reaction.triggeredBy_iff.mp htrigger'
    have := hforward hd hd' hwritten hread
    have := hdeep d hd htrigger
    omega

/-! ## Pages -/

section

variable {V : Type}

/-- What a reaction that fires does to a page by itself. -/
def Meaning.perform (M : Meaning V) (p : Page V) : Reaction → Page V
  | .updateText _ handle code => p.write handle (M.text handle code p.store)
  | .rerun d => p.assign d.assignees fun x => M.value d x p.store

section

variable (M : Meaning V) {refresh : List String → Page V → Option (Page V)}
  {cascade : List String → Option (List Reaction)}

/-- A reaction that fires does its own part first, and then what fires inside it does its part. -/
theorem Meaning.fire_eq_nested
    (h : ∀ changed p, refresh changed p = (cascade changed).map (·.foldl M.perform p))
    (p : Page V) (r : Reaction) :
    M.fire refresh p r = (nested cascade r).map (·.foldl M.perform (M.perform p r)) := by
  cases r with
  | updateText reads handle code => rfl
  | rerun d =>
    rw [Meaning.fire, Meaning.declare, nested]
    by_cases hempty : d.assignees.isEmpty = true
    · rw [if_pos hempty, if_pos hempty]
      rfl
    · rw [if_neg hempty, if_neg hempty]
      exact h _ _

/-- Going over reactions does to a page what those do that fire. -/
theorem Meaning.foldlM_react_eq_fireAll
    (h : ∀ changed p, refresh changed p = (cascade changed).map (·.foldl M.perform p))
    (changed : List String) (reactions : List Reaction) (p : Page V) :
    reactions.foldlM (M.react refresh changed) p
      = (fireAll (nested cascade) (reactions.filter (·.triggeredBy changed))).map
        (·.foldl M.perform p) := by
  induction reactions generalizing p with
  | nil => rfl
  | cons r reactions ih =>
    rw [List.foldlM_cons, Meaning.react]
    by_cases htrigger : r.triggeredBy changed = true
    · rw [if_pos htrigger, List.filter_cons, if_pos htrigger, M.fire_eq_nested h, fireAll]
      cases nested cascade r with
      | none => rfl
      | some inner =>
        simp only [Option.map_some, Option.bind_eq_bind, Option.bind_some, ih]
        cases fireAll (nested cascade) (reactions.filter (·.triggeredBy changed)) <;> simp
    · rw [if_neg htrigger, List.filter_cons, if_neg htrigger]
      exact ih p

end

/-- A refresh does to a page what the reactions do that fire, one after the other. -/
theorem Meaning.refresh_eq_firings (M : Meaning V) (reactions : List Reaction) (k : Nat)
    (changed : List String) (p : Page V) :
    M.refresh reactions k changed p = (firings reactions k changed).map (·.foldl M.perform p) := by
  induction k generalizing changed p with
  | zero => rfl
  | succ k ih => exact M.foldlM_react_eq_fireAll ih changed reactions p

end

/-! ## Components -/

/-- The set holds every declaration that depends on a changed name, or on a name that a declaration
in the set writes. -/
def ClosedUnder (declarations : List Declaration) (changed : List String)
    (S : Set Declaration) : Prop :=
  ∀ d ∈ declarations, (∃ x ∈ d.dependencies, x ∈ changed ∨ ∃ d' ∈ S, x ∈ d'.assignees) → d ∈ S

theorem rerun_mem_refresh {c : Component} {f : Facts} {o : Options} {d : Declaration} :
    .rerun d ∈ (generate c f o).refresh ↔ d ∈ f.responsive ∧ d.dependencies ≠ [] := by
  rw [generate_refresh, List.mem_filter, rerun_mem_allReactions]
  simp [Reaction.triggers]

/-- Where every name is assigned once, a refresh ends for every list of changed names, nested at
most once more than there are declarations. The declarations that fire are the least set that is
closed under what the changed names and the written names trigger, and the texts that are computed
anew are those that these names trigger. A page is left as these reactions leave it one after the
other. -/
theorem refresh_fires_closure (c : Component) (o : Options) (h : AssignedOnce c.statements)
    (changed : List String) :
    let f := analyze c
    let reactions := (generate c f o).refresh
    ∃ fired, (∀ k ≥ f.responsive.length + 1, firings reactions k changed = some fired)
      ∧ IsLeast {S | ClosedUnder f.responsive changed S} {d | .rerun d ∈ fired}
      ∧ (∀ reads name code, .updateText reads name code ∈ fired ↔
        .updateText reads name code ∈ reactions
          ∧ ∃ x ∈ reads, x ∈ changed ∨ ∃ d, .rerun d ∈ fired ∧ x ∈ d.assignees)
      ∧ ∀ (V : Type) (M : Meaning V) (p : Page V),
        M.refresh reactions (f.responsive.length + 1) changed p
          = some (fired.foldl M.perform p) := by
  intro f reactions
  -- The places of declarations are ranks: what a declaration triggers stands behind it.
  have hplace : ∀ {d}, .rerun d ∈ reactions → f.responsive[f.responsive.idxOf d]? = some d :=
    fun hd => List.getElem?_idxOf (rerun_mem_refresh.mp hd).1
  obtain ⟨fired, hfired⟩ : ∃ fired,
      firings reactions (f.responsive.length + 1) changed = some fired := by
    refine exists_firings f.responsive.idxOf f.responsive.length ?_ ?_ ?_
    · exact fun hd hd' hx hx' => h.lt_of_mem_dependencies (hplace hd) (hplace hd') hx hx'
    · exact fun hd => List.idxOf_lt_length_of_mem (rerun_mem_refresh.mp hd).1
    · exact fun d _ _ => Nat.le_add_left _ _
  refine ⟨fired, ?_, ⟨?_, ?_⟩, ?_, ?_⟩
  · exact fun k hk => firings_of_le hfired hk
  · rintro d hd ⟨x, hx, hchanged⟩
    refine (mem_firings hfired).mpr ⟨rerun_mem_refresh.mpr ⟨hd, List.ne_nil_of_mem hx⟩, ?_⟩
    rcases hchanged with hchanged | ⟨d', hd', hx'⟩
    · exact Or.inl (Reaction.triggeredBy_iff.mpr ⟨x, hx, hchanged⟩)
    · exact Or.inr ⟨d', hd', Reaction.triggeredBy_iff.mpr ⟨x, hx, hx'⟩⟩
  · -- A closed set takes in what the changed names trigger, and then what its members trigger.
    intro S hS d hd
    refine mem_of_mem_firings hfired ?_ ?_ hd
    · intro d hd htrigger
      obtain ⟨x, hx, hx'⟩ := Reaction.triggeredBy_iff.mp htrigger
      exact hS d (rerun_mem_refresh.mp hd).1 ⟨x, hx, Or.inl hx'⟩
    · intro d hd d' hd' htrigger
      obtain ⟨x, hx, hx'⟩ := Reaction.triggeredBy_iff.mp htrigger
      exact hS d' (rerun_mem_refresh.mp hd').1 ⟨x, hx, Or.inr ⟨d, hd, hx'⟩⟩
  · intro reads name code
    rw [mem_firings hfired]
    refine and_congr_right fun _ => ?_
    simp only [Reaction.triggeredBy_iff, Reaction.triggers]
    constructor
    · rintro (⟨x, hx, hx'⟩ | ⟨d, hd, x, hx, hx'⟩)
      · exact ⟨x, hx, Or.inl hx'⟩
      · exact ⟨x, hx, Or.inr ⟨d, hd, hx'⟩⟩
    · rintro ⟨x, hx, hx' | ⟨d, hd, hx'⟩⟩
      · exact Or.inl ⟨x, hx, hx'⟩
      · exact Or.inr ⟨d, hd, x, hx, hx'⟩
  · intro V M p
    rw [M.refresh_eq_firings, hfired]
    rfl

/-- Two declarations in a row, the first of which reads its own name: both fire for the name that
the first one depends on, and so does the text that the second one changes. -/
theorem refresh_fires_chain :
    let c : Component := ⟨"", ⟨[.expression ⟨"e0", "b"⟩], []⟩,
      some ⟨"let n = 0; n++; $: a = n + a; $: b = a * 2;", []⟩⟩
    let reactions := (generate c (analyze c) default).refresh
    ∃ fired, firings reactions 3 ["n"] = some fired
      ∧ (∃ d, .rerun d ∈ fired ∧ d.assignees = ["b"])
      ∧ .updateText ["b"] "exp_0" "b" ∈ fired := by
  intro c reactions
  obtain ⟨honce, hnames, htext⟩ : AssignedOnce c.statements
      ∧ (analyze c).responsive.map (fun d => (d.assignees, d.dependencies))
        = [(["a"], ["n"]), (["b"], ["a"])]
      ∧ .updateText ["b"] "exp_0" "b" ∈ reactions := by decide +kernel
  obtain ⟨fired, hfired, ⟨hclosed, -⟩, htexts, -⟩ := refresh_fires_closure c default honce ["n"]
  obtain ⟨first, rest, hall, hfirst, hrest⟩ := List.map_eq_cons_iff.mp hnames
  obtain ⟨second, none, rfl, hsecond, hnone⟩ := List.map_eq_cons_iff.mp hrest
  obtain rfl : none = [] := List.map_eq_nil_iff.mp hnone
  rw [Prod.mk.injEq] at hfirst hsecond
  -- The closure takes in the first declaration, and through its name the second one.
  have hfires : .rerun first ∈ fired :=
    hclosed first (by simp [hall]) ⟨"n", by simp [hfirst], Or.inl (by simp)⟩
  have hfires' : .rerun second ∈ fired :=
    hclosed second (by simp [hall])
      ⟨"a", by simp [hsecond], Or.inr ⟨first, hfires, by simp [hfirst]⟩⟩
  refine ⟨fired, hfired 3 (by simp [hall]), ⟨second, hfires', hsecond.1⟩, ?_⟩
  exact (htexts _ _ _).mpr ⟨htext, "b", by simp, Or.inr ⟨second, hfires', by simp [hsecond]⟩⟩

end Reactive.Refresh
