/-
  Pages and refreshes.

  A page has a store of script variables and the texts of its nodes. A refresh goes over the
  reactions in order and fires those that one of the changed names triggers; a declaration that
  fires writes its names and refreshes the page for them before the next reaction is looked at.
  Such refreshes are nested, and a bound on the nesting makes them functions.

  A reaction is current if its node or its names hold what it computes from the store. Firing a
  reaction makes it current. It may disturb others, but only those that its own refresh fires
  again; so every reaction that was current, or that is triggered, is current in the end.
-/
import Reactive.Emit.Step
import Mathlib.Logic.Function.Basic

namespace Reactive

/-- One of the names that have changed triggers the reaction. -/
def Emit.Reaction.triggeredBy (r : Emit.Reaction) (changed : List String) : Bool :=
  r.triggers.any changed.contains

theorem Emit.Reaction.triggeredBy_iff {r : Emit.Reaction} {changed : List String} :
    r.triggeredBy changed = true ↔ ∃ x ∈ r.triggers, x ∈ changed := by
  simp [triggeredBy]

namespace Refresh

open Emit

variable {V : Type}

/-! ## Pages -/

/-- The values of the script variables and the texts of the nodes. -/
structure Page (V : Type) where
  store : String → V
  text : String → String

/-- The page with a text in a node. -/
def Page.write (p : Page V) (handle text : String) : Page V :=
  { p with text := Function.update p.text handle text }

/-- The page with values in some variables. -/
def Page.assign (p : Page V) (names : List String) (values : String → V) : Page V :=
  { p with store := fun x => if x ∈ names then values x else p.store x }

theorem Page.store_assign_of_mem (p : Page V) {names : List String} (values : String → V)
    {x : String} (h : x ∈ names) : (p.assign names values).store x = values x := if_pos h

theorem Page.store_assign_of_not_mem (p : Page V) {names : List String} (values : String → V)
    {x : String} (h : x ∉ names) : (p.assign names values).store x = p.store x := if_neg h

/-- A change from outside: values for some names. -/
structure Move (V : Type) where
  names : List String
  values : String → V

/-- Writes the values of a move and refreshes the page for its names. -/
def Page.move (p : Page V) (refresh : List String → Page V → Option (Page V)) (m : Move V) :
    Option (Page V) :=
  refresh m.names (p.assign m.names m.values)

/-- What code computes from the script variables: the values that a declaration gives to its
names, and the text that the code of a node gives. -/
structure Meaning (V : Type) where
  value : Declaration → String → (String → V) → V
  text : String → String → (String → V) → String

namespace Meaning

variable (M : Meaning V)

/-! ## Refreshing -/

/-- Runs a declaration: its names are written together and then refreshed. -/
def declare (refresh : List String → Page V → Option (Page V)) (d : Declaration) (p : Page V) :
    Option (Page V) :=
  let written := p.assign d.assignees fun x => M.value d x p.store
  if d.assignees.isEmpty then some written else refresh d.assignees written

/-- What a reaction does when it fires. -/
def fire (refresh : List String → Page V → Option (Page V)) (p : Page V) :
    Reaction → Option (Page V)
  | .updateText _ handle code => some (p.write handle (M.text handle code p.store))
  | .rerun d => M.declare refresh d p

/-- Looks at a reaction, which fires if it is triggered. -/
def react (refresh : List String → Page V → Option (Page V)) (changed : List String) (p : Page V)
    (r : Reaction) : Option (Page V) :=
  if r.triggeredBy changed then M.fire refresh p r else some p

/-- A refresh for changed names, with a bound on how deep refreshes are nested. -/
def refresh (reactions : List Reaction) : Nat → List String → Page V → Option (Page V)
  | 0, _, _ => none
  | k + 1, changed, p => reactions.foldlM (M.react (refresh reactions k) changed) p

/-- What a step that builds does to a page. -/
def build (refresh : List String → Page V → Option (Page V)) (p : Page V) : Step → Option (Page V)
  | .createText handle (.text value) => some (p.write handle value)
  | .createText handle (.code code) => some (p.write handle (M.text handle code p.store))
  | .run d => M.declare refresh d p
  | _ => some p

/-- Builds a page with steps, and then makes moves on it. -/
def session (construct : List Step) (reactions : List Reaction) (start : Page V)
    (moves : List (Move V)) (k : Nat) : Option (Page V) := do
  let built ← construct.foldlM (M.build (M.refresh reactions k)) start
  moves.foldlM (fun p m => p.move (M.refresh reactions k) m) built

/-! ## The bound on the nesting -/

/-- Whatever the bound is from some number on, the run ends with this page. -/
def Ends (run : Nat → Option (Page V)) (p : Page V) : Prop := ∃ depth, ∀ k ≥ depth, run k = some p

/-- One refresh does what another one does where that one ends. -/
def Extends (refresh refresh' : List String → Page V → Option (Page V)) : Prop :=
  ∀ changed p q, refresh changed p = some q → refresh' changed p = some q

section

variable {refresh refresh' : List String → Page V → Option (Page V)}

theorem foldlM_extends {α : Type} {f g : Page V → α → Option (Page V)}
    (hstep : ∀ p a q, f p a = some q → g p a = some q) {as : List α} {p q : Page V}
    (h : as.foldlM f p = some q) : as.foldlM g p = some q := by
  induction as generalizing p with
  | nil => exact h
  | cons a as ih =>
    rw [List.foldlM_cons] at h ⊢
    obtain ⟨p', hp', hrest⟩ := Option.bind_eq_some_iff.mp h
    exact Option.bind_eq_some_iff.mpr ⟨p', hstep p a p' hp', ih hrest⟩

theorem declare_extends (hle : Extends refresh refresh') {d : Declaration} {p q : Page V}
    (h : M.declare refresh d p = some q) : M.declare refresh' d p = some q := by
  unfold declare at h ⊢
  by_cases hempty : d.assignees.isEmpty = true
  · rw [if_pos hempty] at h ⊢
    exact h
  · rw [if_neg hempty] at h ⊢
    exact hle _ _ _ h

theorem react_extends (hle : Extends refresh refresh') {changed : List String} {r : Reaction}
    {p q : Page V} (h : M.react refresh changed p r = some q) :
    M.react refresh' changed p r = some q := by
  unfold react at h ⊢
  by_cases htrigger : r.triggeredBy changed = true
  · rw [if_pos htrigger] at h ⊢
    cases r with
    | updateText reads handle code => exact h
    | rerun d => exact M.declare_extends hle h
  · rw [if_neg htrigger] at h ⊢
    exact h

theorem build_extends (hle : Extends refresh refresh') {s : Step} {p q : Page V}
    (h : M.build refresh p s = some q) : M.build refresh' p s = some q := by
  cases s with
  | run d => exact M.declare_extends hle h
  | createText handle value => cases value <;> exact h
  | _ => exact h

end

/-- A larger bound changes nothing where a refresh ends. -/
theorem refresh_extends (reactions : List Reaction) (k : Nat) :
    Extends (M.refresh reactions k) (M.refresh reactions (k + 1)) := by
  induction k with
  | zero =>
    intro changed p q h
    exact absurd h (by simp [refresh])
  | succ k ih =>
    intro changed p q h
    exact foldlM_extends (fun p r q hr => M.react_extends ih hr) h

/-- A session that ends under one bound ends in the same way under every larger one. -/
theorem ends_of_session {construct : List Step} {reactions : List Reaction} {start p : Page V}
    {moves : List (Move V)} {k : Nat}
    (h : M.session construct reactions start moves k = some p) :
    Ends (M.session construct reactions start moves) p := by
  refine ⟨k, fun k' hk' => ?_⟩
  obtain ⟨more, rfl⟩ := Nat.exists_eq_add_of_le hk'
  induction more with
  | zero => exact h
  | succ more ih =>
    have hle := M.refresh_extends reactions (k + more)
    replace ih := ih (Nat.le_add_right k more)
    obtain ⟨built, hbuilt, hmoves⟩ := Option.bind_eq_some_iff.mp ih
    refine Option.bind_eq_some_iff.mpr ⟨built, ?_, ?_⟩
    · exact foldlM_extends (fun p s q hs => M.build_extends hle hs) hbuilt
    · exact foldlM_extends (fun p m q hm => hle _ _ _ hm) hmoves

/-! ## Reactions that are current -/

/-- The node or the names of a reaction hold what it computes. -/
def Current (p : Page V) : Reaction → Prop
  | .updateText _ handle code => p.text handle = M.text handle code p.store
  | .rerun d => ∀ x ∈ d.assignees, p.store x = M.value d x p.store

/-- Of the reactive names, a reaction reads none but its triggers. -/
def Reads (reactive : List String) (r : Reaction) : Prop :=
  ∀ s s' : String → V, (∀ x, (x ∈ reactive → x ∈ r.triggers) → s x = s' x) →
    match r with
    | .updateText _ handle code => M.text handle code s = M.text handle code s'
    | .rerun d => ∀ x ∈ d.assignees, M.value d x s = M.value d x s'

/-- The reactions of a page fit together: no two write the same, and a declaration reads only
what declarations of lower rank write. -/
structure Cascade (reactive : List String) (all : List Reaction) (rank : Declaration → Nat)
    (n : Nat) : Prop where
  reads : ∀ r ∈ all, M.Reads reactive r
  reactive : ∀ d, .rerun d ∈ all → ∀ x ∈ d.assignees, x ∈ reactive
  texts : ∀ {reads reads' handle code code'}, .updateText reads handle code ∈ all →
    .updateText reads' handle code' ∈ all → code = code'
  once : ∀ {d d' x}, .rerun d ∈ all → .rerun d' ∈ all → x ∈ d.assignees → x ∈ d'.assignees → d = d'
  forward : ∀ {d d' x}, .rerun d ∈ all → .rerun d' ∈ all → x ∈ d.assignees →
    x ∈ d'.dependencies → rank d < rank d'
  rank_lt : ∀ {d}, .rerun d ∈ all → rank d < n

/-- From one page to the next, nothing that was current is lost, and only names of declarations
have changed. -/
structure Keeps (all : List Reaction) (p p' : Page V) : Prop where
  current : ∀ r ∈ all, M.Current p r → M.Current p' r
  frame : ∀ x, (∀ d, .rerun d ∈ all → x ∉ d.assignees) → p'.store x = p.store x

/-- The page has been refreshed for changed names. -/
structure Refreshed (all : List Reaction) (changed : List String) (p p' : Page V) : Prop
    extends M.Keeps all p p' where
  triggered : ∀ r ∈ all, r.triggeredBy changed = true → M.Current p' r

variable {M}

theorem Keeps.refl (all : List Reaction) (p : Page V) : M.Keeps all p p :=
  ⟨fun _ _ h => h, fun _ _ => rfl⟩

theorem Keeps.trans {all : List Reaction} {p p' p'' : Page V} (h : M.Keeps all p p')
    (h' : M.Keeps all p' p'') : M.Keeps all p p'' where
  current r hr hcur := h'.current r hr (h.current r hr hcur)
  frame x hx := by rw [h'.frame x hx, h.frame x hx]

/-! ## One reaction -/

section

variable {reactive : List String} {all : List Reaction} {rank : Declaration → Nat} {n : Nat}

/-- A reaction that reactive names do not trigger does not see them written. -/
theorem store_assign_of_quiet {r : Reaction} {names : List String}
    (hnames : ∀ x ∈ names, x ∈ reactive) (hquiet : r.triggeredBy names = false) (p : Page V)
    (values : String → V) {x : String} (hx : x ∈ reactive → x ∈ r.triggers) :
    p.store x = (p.assign names values).store x := by
  rw [Page.store_assign_of_not_mem]
  intro hmem
  have htrigger := Reaction.triggeredBy_iff.mpr ⟨x, hx (hnames x hmem), hmem⟩
  rw [hquiet] at htrigger
  exact absurd htrigger (by simp)

/-- Writing reactive names leaves a reaction current that they do not trigger and that does not
write them itself. -/
theorem Cascade.current_assign (h : M.Cascade reactive all rank n) {r : Reaction} (hr : r ∈ all)
    {p : Page V} {names : List String} (values : String → V) (hnames : ∀ x ∈ names, x ∈ reactive)
    (hquiet : r.triggeredBy names = false)
    (hown : ∀ d, r = .rerun d → ∀ x ∈ d.assignees, x ∉ names) (hcur : M.Current p r) :
    M.Current (p.assign names values) r := by
  have hreads := h.reads r hr _ _ fun _ => store_assign_of_quiet hnames hquiet p values
  cases r with
  | updateText reads handle code =>
    show p.text handle = _
    rw [← hreads]
    exact hcur
  | rerun d =>
    intro x hx
    rw [Page.store_assign_of_not_mem _ _ (hown d rfl x hx), ← hreads x hx]
    exact hcur x hx

/-- A text that is computed anew is current, and nothing else changes. -/
theorem Cascade.keeps_write (h : M.Cascade reactive all rank n) {reads : List String}
    {handle code : String} (hr : .updateText reads handle code ∈ all) (p : Page V) :
    M.Keeps all p (p.write handle (M.text handle code p.store)) := by
  refine ⟨?_, fun _ _ => rfl⟩
  intro r hr' hcur
  cases r with
  | rerun d => exact hcur
  | updateText reads' handle' code' =>
    show Function.update p.text handle _ handle' = M.text handle' code' p.store
    by_cases hhandle : handle' = handle
    · subst hhandle
      rw [Function.update_self, h.texts hr' hr]
    · rw [Function.update_of_ne hhandle]
      exact hcur

/-- Running a declaration makes it current. What its names disturb is triggered by them, so that
its own refresh brings it up to date again. -/
theorem Cascade.exists_declare (h : M.Cascade reactive all rank n) {d : Declaration}
    (hd : .rerun d ∈ all) {refresh : List String → Page V → Option (Page V)}
    (hrefresh : ∀ q, ∃ q', refresh d.assignees q = some q' ∧ M.Refreshed all d.assignees q q')
    (p : Page V) :
    ∃ p', M.declare refresh d p = some p' ∧ M.Keeps all p p' ∧ M.Current p' (.rerun d) := by
  let q := p.assign d.assignees fun x => M.value d x p.store
  -- No declaration reads its own names.
  have hown : (Reaction.rerun d).triggeredBy d.assignees = false := by
    rw [← Bool.not_eq_true, Reaction.triggeredBy_iff]
    rintro ⟨x, hread, hwritten⟩
    exact absurd (h.forward hd hd hwritten hread) (Nat.lt_irrefl _)
  have hself : M.Current q (.rerun d) := by
    intro x hx
    have hreads := h.reads _ hd _ _ fun _ => store_assign_of_quiet (h.reactive d hd) hown p
      fun x => M.value d x p.store
    rw [← hreads x hx]
    exact Page.store_assign_of_mem _ _ hx
  have hothers : ∀ r ∈ all, M.Current p r → r.triggeredBy d.assignees = false → M.Current q r := by
    intro r hr hcur hquiet
    by_cases hrd : r = .rerun d
    · rw [hrd]
      exact hself
    · refine h.current_assign hr _ (h.reactive d hd) hquiet ?_ hcur
      rintro d' rfl x hx hx'
      exact hrd (congrArg Reaction.rerun (h.once hr hd hx hx'))
  have hframe : ∀ x, (∀ d, .rerun d ∈ all → x ∉ d.assignees) → q.store x = p.store x :=
    fun x hx => Page.store_assign_of_not_mem _ _ (hx d hd)
  -- A declaration that writes no name is not followed by a refresh.
  by_cases hempty : d.assignees.isEmpty
  · refine ⟨q, if_pos hempty, ⟨fun r hr hcur => hothers r hr hcur ?_, hframe⟩, hself⟩
    rw [List.isEmpty_iff.mp hempty]
    simp [Reaction.triggeredBy]
  · obtain ⟨q', hq', hdone⟩ := hrefresh q
    refine ⟨q', (if_neg hempty).trans hq', ⟨fun r hr hcur => ?_, fun x hx => ?_⟩,
      hdone.current _ hd hself⟩
    · cases htrigger : r.triggeredBy d.assignees with
      | true => exact hdone.triggered r hr htrigger
      | false => exact hdone.current r hr (hothers r hr hcur htrigger)
    · rw [hdone.frame x hx, hframe x hx]

/-- Firing a reaction makes it current. -/
theorem Cascade.exists_fire (h : M.Cascade reactive all rank n) {r : Reaction} (hr : r ∈ all)
    {refresh : List String → Page V → Option (Page V)}
    (hrefresh : ∀ d, r = .rerun d → ∀ q, ∃ q', refresh d.assignees q = some q'
      ∧ M.Refreshed all d.assignees q q') (p : Page V) :
    ∃ p', M.fire refresh p r = some p' ∧ M.Keeps all p p' ∧ M.Current p' r := by
  cases r with
  | updateText reads handle code =>
    refine ⟨_, rfl, h.keeps_write hr p, ?_⟩
    show Function.update p.text handle _ handle = M.text handle code p.store
    rw [Function.update_self]
  | rerun d => exact h.exists_declare hr (hrefresh d rfl) p

/-! ## Refreshes -/

/-- Going over reactions: those that are current stay so, and those that are triggered become so
when their turn comes. -/
theorem Cascade.exists_reactAll (h : M.Cascade reactive all rank n) {changed : List String}
    {refresh : List String → Page V → Option (Page V)}
    (hrefresh : ∀ d, .rerun d ∈ all → (Reaction.rerun d).triggeredBy changed = true →
      ∀ q, ∃ q', refresh d.assignees q = some q' ∧ M.Refreshed all d.assignees q q')
    {rest : List Reaction} (hrest : ∀ r ∈ rest, r ∈ all) (p : Page V) :
    ∃ p', rest.foldlM (M.react refresh changed) p = some p' ∧ M.Keeps all p p'
      ∧ ∀ r ∈ rest, r.triggeredBy changed = true → M.Current p' r := by
  induction rest generalizing p with
  | nil => exact ⟨p, rfl, Keeps.refl all p, fun _ hr => absurd hr (by simp)⟩
  | cons r rest ih =>
    have hr := hrest r List.mem_cons_self
    -- The first reaction leaves a page on which it is current if it was triggered.
    obtain ⟨q, hq, hkeep, hcur⟩ : ∃ q, M.react refresh changed p r = some q ∧ M.Keeps all p q
        ∧ (r.triggeredBy changed = true → M.Current q r) := by
      by_cases htrigger : r.triggeredBy changed = true
      · obtain ⟨q, hq, hkeep, hcur⟩ := h.exists_fire hr
          (fun d hd => hrefresh d (hd ▸ hr) (hd ▸ htrigger)) p
        exact ⟨q, (if_pos htrigger).trans hq, hkeep, fun _ => hcur⟩
      · exact ⟨p, if_neg htrigger, Keeps.refl all p, fun h => absurd h htrigger⟩
    obtain ⟨p', hp', hkeep', htriggered⟩ :=
      ih (fun r' hr' => hrest r' (List.mem_cons_of_mem _ hr')) q
    refine ⟨p', ?_, hkeep.trans hkeep', ?_⟩
    · rw [List.foldlM_cons, hq]
      exact hp'
    · intro r' hr' htrigger
      rcases List.mem_cons.mp hr' with rfl | hr'
      · exact hkeep'.current _ hr (hcur htrigger)
      · exact htriggered r' hr' htrigger

/-- A refresh brings everything that it triggers up to date if the refreshes inside it do. -/
theorem Cascade.exists_refresh_succ (h : M.Cascade reactive all rank n) {k : Nat}
    {changed : List String}
    (hnested : ∀ d, .rerun d ∈ all → (Reaction.rerun d).triggeredBy changed = true →
      ∀ q, ∃ q', M.refresh (all.filter fun r => !r.triggers.isEmpty) k d.assignees q = some q'
        ∧ M.Refreshed all d.assignees q q') (p : Page V) :
    ∃ p', M.refresh (all.filter fun r => !r.triggers.isEmpty) (k + 1) changed p = some p'
      ∧ M.Refreshed all changed p p' := by
  obtain ⟨p', hp', hkeep, htriggered⟩ := h.exists_reactAll hnested
    (fun r hr => (List.mem_filter.mp hr).1) p
  refine ⟨p', hp', hkeep, fun r hr htrigger => htriggered r (List.mem_filter.mpr ⟨hr, ?_⟩) htrigger⟩
  obtain ⟨x, hx, -⟩ := Reaction.triggeredBy_iff.mp htrigger
  cases htriggers : r.triggers with
  | nil => exact absurd (htriggers ▸ hx) (by simp)
  | cons y ys => rfl

/-- Every nested refresh triggers declarations of higher ranks only, so that the ranks bound the
nesting. -/
theorem Cascade.exists_refresh (h : M.Cascade reactive all rank n) {k : Nat}
    {changed : List String}
    (hdeep : ∀ d, .rerun d ∈ all → (Reaction.rerun d).triggeredBy changed = true → n ≤ rank d + k)
    (p : Page V) :
    ∃ p', M.refresh (all.filter fun r => !r.triggers.isEmpty) (k + 1) changed p = some p'
      ∧ M.Refreshed all changed p p' := by
  induction k generalizing changed p with
  | zero =>
    refine h.exists_refresh_succ (fun d hd htrigger => ?_) p
    have := hdeep d hd htrigger
    have := h.rank_lt hd
    omega
  | succ k ih =>
    refine h.exists_refresh_succ (fun d hd htrigger => ih fun d' hd' htrigger' => ?_) p
    -- What the names of a declaration trigger ranks above it, and needs one level less.
    obtain ⟨x, hread, hwritten⟩ := Reaction.triggeredBy_iff.mp htrigger'
    have := h.forward hd hd' hwritten hread
    have := hdeep d hd htrigger
    omega

/-! ## Moves -/

/-- Writing reactive names that no declaration writes, and refreshing the page for them. -/
theorem Cascade.exists_move (h : M.Cascade reactive all rank n) {k : Nat} (hk : n ≤ k)
    {names : List String} (hreactive : ∀ x ∈ names, x ∈ reactive)
    (hfree : ∀ d, .rerun d ∈ all → ∀ x ∈ d.assignees, x ∉ names) (values : String → V)
    {p : Page V} (hp : ∀ r ∈ all, M.Current p r) :
    ∃ p', M.refresh (all.filter fun r => !r.triggers.isEmpty) (k + 1) names
        (p.assign names values) = some p'
      ∧ (∀ r ∈ all, M.Current p' r)
      ∧ ∀ x, (∀ d, .rerun d ∈ all → x ∉ d.assignees) →
        p'.store x = if x ∈ names then values x else p.store x := by
  obtain ⟨p', hp', hdone⟩ := h.exists_refresh (fun d _ _ => Nat.le_trans hk (Nat.le_add_left _ _))
    (p.assign names values)
  refine ⟨p', hp', fun r hr => ?_, hdone.frame⟩
  cases htrigger : r.triggeredBy names with
  | true => exact hdone.triggered r hr htrigger
  | false =>
    refine hdone.current r hr (h.current_assign hr values hreactive htrigger ?_ (hp r hr))
    rintro d rfl
    exact hfree d hr

/-- Moves one after the other: the page stays current, and the names that no declaration writes
hold what was written last. -/
theorem Cascade.exists_moves (h : M.Cascade reactive all rank n) {k : Nat} (hk : n ≤ k)
    {moves : List (Move V)} (hmoves : ∀ m ∈ moves, ∀ x ∈ m.names, x ∈ reactive
      ∧ ∀ d, .rerun d ∈ all → x ∉ d.assignees)
    {p : Page V} (hp : ∀ r ∈ all, M.Current p r) :
    ∃ p', moves.foldlM (fun p m =>
        p.move (M.refresh (all.filter fun r => !r.triggers.isEmpty) (k + 1)) m) p = some p'
      ∧ (∀ r ∈ all, M.Current p' r)
      ∧ ∀ x, (∀ d, .rerun d ∈ all → x ∉ d.assignees) → p'.store x
        = moves.foldl (fun v m => if x ∈ m.names then m.values x else v) (p.store x) := by
  induction moves generalizing p with
  | nil => exact ⟨p, rfl, hp, fun _ _ => rfl⟩
  | cons m moves ih =>
    have hm := hmoves m List.mem_cons_self
    obtain ⟨q, hq, hcur, hstore⟩ := h.exists_move hk (fun x hx => (hm x hx).1)
      (fun d hd x hx hx' => (hm x hx').2 d hd hx) m.values hp
    obtain ⟨p', hp', hcur', hstore'⟩ := ih (fun m' hm' => hmoves m' (List.mem_cons_of_mem _ hm'))
      hcur
    refine ⟨p', ?_, hcur', fun x hx => ?_⟩
    · rw [List.foldlM_cons, Page.move, hq]
      exact hp'
    · rw [hstore' x hx, hstore x hx]
      rfl

/-- Running all declarations in turn makes them all current. -/
theorem Cascade.exists_declareAll (h : M.Cascade reactive all rank n) {k : Nat} (hk : n ≤ k)
    {declarations : List Declaration} (hall : ∀ d ∈ declarations, .rerun d ∈ all) (p : Page V) :
    ∃ p', declarations.foldlM
        (fun p d => M.declare (M.refresh (all.filter fun r => !r.triggers.isEmpty) (k + 1)) d p) p
          = some p'
      ∧ M.Keeps all p p' ∧ ∀ d ∈ declarations, M.Current p' (.rerun d) := by
  induction declarations generalizing p with
  | nil => exact ⟨p, rfl, Keeps.refl all p, fun _ hd => absurd hd (by simp)⟩
  | cons d declarations ih =>
    have hd := hall d List.mem_cons_self
    obtain ⟨q, hq, hkeep, hcur⟩ := h.exists_declare hd
      (fun q => h.exists_refresh (fun d _ _ => Nat.le_trans hk (Nat.le_add_left _ _)) q) p
    obtain ⟨p', hp', hkeep', hcur'⟩ := ih (fun d' hd' => hall d' (List.mem_cons_of_mem _ hd')) q
    refine ⟨p', ?_, hkeep.trans hkeep', ?_⟩
    · rw [List.foldlM_cons, hq]
      exact hp'
    · intro d' hd'
      rcases List.mem_cons.mp hd' with rfl | hd'
      · exact hkeep'.current _ hd hcur
      · exact hcur' d' hd'

end

end Meaning

end Refresh

end Reactive
