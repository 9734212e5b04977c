/-
  The scopes around a scope.

  Scopes know each other by number, and walks along parents use these numbers as they are. They come
  to an end, at a scope that exists, since building keeps the scopes in order: the root comes first
  and is the only one without a parent, and every other scope stands behind its parent. Main
  statement: this order, what the walks find by it, and that a cursor is at some scope whatever it
  was told to enter and to leave.
-/
import Reactive.Facts.Codec
import Reactive.Proofs.Script.Declarations
import Mathlib.Logic.Relation

namespace Reactive.Script

namespace ScopeTree

/-! ## Scopes in order -/

/-- The root comes first, the other scopes come behind their parents, and nodes open scopes that
exist. -/
structure Ordered (t : ScopeTree) : Prop where
  root : ∃ s, t.scope? rootId = some s ∧ s.kind = .root ∧ s.parent = none
  inner : ∀ {id : Nat} {s : Scope}, t.scope? id = some s → id ≠ rootId →
    s.kind ≠ .root ∧ ∃ p, s.parent = some p ∧ p < id
  owned : ∀ {span : Span} {id : Nat}, (span, id) ∈ t.owners → id ≠ rootId ∧ id < t.scopes.length

/-- The second scope is the parent of the first. -/
def Parent (t : ScopeTree) (id p : Nat) : Prop := ∃ s, t.scope? id = some s ∧ s.parent = some p

/-- The second scope is the first one or around it. -/
def Around (t : ScopeTree) : Nat → Nat → Prop := Relation.ReflTransGen t.Parent

/-- Of the scopes with a property around a scope, itself included, the one that all others are
around. -/
structure Nearest (t : ScopeTree) (p : Nat → Bool) (id found : Nat) : Prop where
  around : t.Around id found
  holds : p found = true
  inside : ∀ k, t.Around id k → p k = true → t.Around found k

/-- A walk from a scope along the parents, up to the first scope where it stops. There is no walk
that uses the number of no scope, and none that goes on without end. -/
inductive Walk (t : ScopeTree) (stops : Scope → Bool) : Nat → Option Nat → Prop where
  | stop {id : Nat} {s : Scope} (hs : t.scope? id = some s) (hstops : stops s = true) :
      Walk t stops id (some id)
  | leave {id : Nat} {s : Scope} (hs : t.scope? id = some s) (hstops : stops s = false)
      (hparent : s.parent = none) : Walk t stops id none
  | up {id p : Nat} {s : Scope} {found : Option Nat} (hs : t.scope? id = some s)
      (hstops : stops s = false) (hparent : s.parent = some p) (hwalk : Walk t stops p found) :
      Walk t stops id found

theorem start_ordered : start.Ordered where
  root := ⟨_, rfl, rfl, rfl⟩
  inner := by
    intro id s hs hid
    obtain ⟨hlt, -⟩ := List.getElem?_eq_some_iff.mp hs
    exact absurd (Nat.lt_one_iff.mp hlt) hid
  owned h := absurd h List.not_mem_nil

section

variable {t : ScopeTree} {id : Nat}

theorem exists_scope (hid : id < t.scopes.length) : ∃ s, t.scope? id = some s :=
  ⟨_, List.getElem?_eq_getElem hid⟩

theorem lt_of_scope? {s : Scope} (h : t.scope? id = some s) : id < t.scopes.length :=
  (List.getElem?_eq_some_iff.mp h).1

/-- The root is the only scope of its kind. -/
theorem Ordered.kind_eq_root_iff (h : t.Ordered) {s : Scope} (hs : t.scope? id = some s) :
    s.kind = .root ↔ id = rootId := by
  constructor
  · intro hkind
    by_contra hid
    exact (h.inner hs hid).1 hkind
  · rintro rfl
    obtain ⟨root, hroot, hkind, -⟩ := h.root
    rwa [Option.some_inj.mp (hs.symm.trans hroot)]

/-- The root is the only scope without a parent. -/
theorem Ordered.parent_eq_none_iff (h : t.Ordered) {s : Scope} (hs : t.scope? id = some s) :
    s.parent = none ↔ id = rootId := by
  constructor
  · intro hnone
    by_contra hid
    obtain ⟨p, hp, -⟩ := (h.inner hs hid).2
    rw [hnone] at hp
    cases hp
  · rintro rfl
    obtain ⟨root, hroot, -, hparent⟩ := h.root
    rwa [Option.some_inj.mp (hs.symm.trans hroot)]

theorem Ordered.parent_lt (h : t.Ordered) {s : Scope} (hs : t.scope? id = some s) {p : Nat}
    (hp : s.parent = some p) : p < id := by
  have hid : id ≠ rootId := fun hid =>
    absurd ((h.parent_eq_none_iff hs).mpr hid) (by simp [hp])
  obtain ⟨q, hq, hlt⟩ := (h.inner hs hid).2
  rwa [Option.some_inj.mp (hp.symm.trans hq)]

/-! ## Walks -/

/-- The chain of a scope without a parent ends with the scope, and any other one goes on with the
chain of the parent. -/
theorem Ordered.chain_cases (h : t.Ordered) {s : Scope} (hs : t.scope? id = some s) :
    (s.parent = none ∧ t.chain id = [id])
    ∨ ∃ p, s.parent = some p ∧ p < id ∧ t.chain id = id :: t.chain p := by
  cases hparent : s.parent with
  | none =>
    refine .inl ⟨rfl, ?_⟩
    rw [chain, hs]
    dsimp only
    rw [hparent]
  | some p =>
    have hlt := h.parent_lt hs hparent
    exact .inr ⟨p, rfl, hlt, chain_of_parent hs hparent hlt⟩

/-- A walk goes through the chain of its scope. -/
theorem Ordered.walk (h : t.Ordered) (stops : Scope → Bool) (hid : id < t.scopes.length) :
    t.Walk stops id ((t.chain id).find? fun k => (t.scope? k).any stops) := by
  induction id using Nat.strongRecOn with
  | _ id ih =>
    obtain ⟨s, hs⟩ := exists_scope hid
    cases hstops : stops s with
    | true =>
      have hfound : (t.chain id).find? (fun k => (t.scope? k).any stops) = some id := by
        rcases h.chain_cases hs with ⟨-, hchain⟩ | ⟨p, -, -, hchain⟩ <;>
          simp [hchain, hs, hstops]
      rw [hfound]
      exact .stop hs hstops
    | false =>
      rcases h.chain_cases hs with ⟨hparent, hchain⟩ | ⟨p, hparent, hlt, hchain⟩
      · rw [hchain, List.find?_singleton, hs, Option.any_some, hstops, if_neg Bool.false_ne_true]
        exact .leave hs hstops hparent
      · rw [hchain, List.find?_cons, hs, Option.any_some, hstops]
        exact .up hs hstops hparent (ih p hlt (Nat.lt_trans hlt hid))

/-! ## Around -/

/-- The chain of a scope holds the scopes around it. -/
theorem Ordered.mem_chain_iff (h : t.Ordered) (hid : id < t.scopes.length) {k : Nat} :
    k ∈ t.chain id ↔ t.Around id k := by
  induction id using Nat.strongRecOn with
  | _ id ih =>
    obtain ⟨s, hs⟩ := exists_scope hid
    rw [Around, Relation.ReflTransGen.cases_head_iff, eq_comm (a := id)]
    rcases h.chain_cases hs with ⟨hparent, hchain⟩ | ⟨p, hparent, hlt, hchain⟩
    · rw [hchain, List.mem_singleton, or_iff_left]
      rintro ⟨q, ⟨s', hs', hq⟩, -⟩
      rw [Option.some_inj.mp (hs'.symm.trans hs), hparent] at hq
      cases hq
    · rw [hchain, List.mem_cons, ih p hlt (Nat.lt_trans hlt hid)]
      refine or_congr_right ⟨fun hk => ⟨p, ⟨s, hs, hparent⟩, hk⟩, ?_⟩
      rintro ⟨q, ⟨s', hs', hq⟩, hk⟩
      rw [Option.some_inj.mp (hs'.symm.trans hs), hparent] at hq
      rwa [Option.some_inj.mp hq]

theorem Ordered.le_of_around (h : t.Ordered) {k : Nat} (hk : t.Around id k) : k ≤ id := by
  induction hk with
  | refl => exact Nat.le_refl _
  | tail _ hparent ih =>
    obtain ⟨s, hs, hp⟩ := hparent
    exact Nat.le_trans (h.parent_lt hs hp).le ih

/-- The root is around every scope. -/
theorem Ordered.around_root (h : t.Ordered) (hid : id < t.scopes.length) : t.Around id rootId := by
  induction id using Nat.strongRecOn with
  | _ id ih =>
    obtain ⟨s, hs⟩ := exists_scope hid
    rcases h.chain_cases hs with ⟨hparent, -⟩ | ⟨p, hparent, hlt, -⟩
    · rw [(h.parent_eq_none_iff hs).mp hparent]
      exact .refl
    · exact .head ⟨s, hs, hparent⟩ (ih p hlt (Nat.lt_trans hlt hid))

/-- What is found first on the way out is nearest. -/
theorem Ordered.nearest_of_find? (h : t.Ordered) (hid : id < t.scopes.length) {p : Nat → Bool}
    {found : Nat} (hfound : (t.chain id).find? p = some found) : t.Nearest p id found := by
  refine ⟨(h.mem_chain_iff hid).mp (List.mem_of_find?_eq_some hfound), List.find?_some hfound, ?_⟩
  intro k hk hpk
  induction id using Nat.strongRecOn with
  | _ id ih =>
    obtain ⟨s, hs⟩ := exists_scope hid
    cases hp : p id with
    | true =>
      have hself : (t.chain id).find? p = some id := by
        rcases h.chain_cases hs with ⟨-, hchain⟩ | ⟨q, -, -, hchain⟩ <;> simp [hchain, hp]
      obtain rfl : found = id := Option.some_inj.mp (hfound.symm.trans hself)
      exact hk
    | false =>
      -- The scope without the property is not the one further out either.
      rcases h.chain_cases hs with ⟨-, hchain⟩ | ⟨q, hparent, hlt, hchain⟩
      · simp [hchain, hp] at hfound
      · rw [hchain, List.find?_cons, hp] at hfound
        rcases Relation.ReflTransGen.cases_head hk with rfl | ⟨q', ⟨s', hs', hq'⟩, hk⟩
        · rw [hp] at hpk
          cases hpk
        · rw [Option.some_inj.mp (hs'.symm.trans hs), hparent] at hq'
          obtain rfl := Option.some_inj.mp hq'
          exact ih q hlt (Nat.lt_trans hlt hid) hfound hk

/-- There is one nearest scope at most. -/
theorem Ordered.nearest_unique (h : t.Ordered) {p : Nat → Bool} {found found' : Nat}
    (hn : t.Nearest p id found) (hn' : t.Nearest p id found') : found = found' :=
  Nat.le_antisymm (h.le_of_around (hn'.inside _ hn.around hn.holds))
    (h.le_of_around (hn.inside _ hn'.around hn'.holds))

/-- What is found first on the way out is the nearest scope, and nothing is found if no scope around
has the property. -/
theorem Ordered.find?_chain (h : t.Ordered) (hid : id < t.scopes.length) (p : Nat → Bool) :
    (∀ found, (t.chain id).find? p = some found ↔ t.Nearest p id found)
    ∧ ((t.chain id).find? p = none ↔ ∀ k, t.Around id k → p k = false) := by
  refine ⟨fun found => ⟨h.nearest_of_find? hid, fun hn => ?_⟩, ?_⟩
  · cases hfind : (t.chain id).find? p with
    | none =>
      have hnot := List.find?_eq_none.mp hfind found ((h.mem_chain_iff hid).mpr hn.around)
      exact absurd hn.holds hnot
    | some found' => rw [h.nearest_unique hn (h.nearest_of_find? hid hfind)]
  · rw [List.find?_eq_none]
    exact forall_congr' fun k => by rw [h.mem_chain_iff hid, Bool.not_eq_true]

end

/-! ## Building keeps the order -/

/-- What visits add is in order if what was there before is. -/
theorem Ordered.grown {a b : ScopeTree} {visits : List Visited} (ha : a.Ordered)
    (h : Grown a visits b) : b.Ordered := by
  have hextends := h.outline_extends
  have hlength : a.scopes.length ≤ b.scopes.length := by
    rw [h.length_eq]
    exact Nat.le_add_right _ _
  obtain ⟨root, hroot, hkind, hparent⟩ := ha.root
  have hpos : rootId < a.scopes.length := lt_of_scope? hroot
  refine ⟨?_, fun {id s} hs hid => ?_, fun {span id} howned => ?_⟩
  · obtain ⟨before, after, hbefore, hafter, hkind', hparent'⟩ :=
      exists_scope_of_extends hextends hpos
    obtain rfl := Option.some_inj.mp (hroot.symm.trans hbefore)
    exact ⟨after, hafter, hkind'.trans hkind, hparent'.trans hparent⟩
  · rcases Nat.lt_or_ge id a.scopes.length with hold | hnew
    · obtain ⟨before, after, hbefore, hafter, hkind', hparent'⟩ :=
        exists_scope_of_extends hextends hold
      obtain rfl := Option.some_inj.mp (hs.symm.trans hafter)
      rw [hkind', hparent']
      exact ha.inner hbefore hid
    · obtain ⟨v, hv, hopens, rfl⟩ := h.exists_opener hnew (lt_of_scope? hs)
      obtain ⟨s', hs', hkind', hparent'⟩ := h.exists_scope_inner hv hopens
      obtain rfl := Option.some_inj.mp (hs.symm.trans hs')
      refine ⟨fun hroot => ?_, v.scope, hparent', h.scope_lt_inner v hv hopens⟩
      rw [hroot] at hkind'
      exact Label.scopeKind?_ne_root _ hkind'
  · rw [h.owners, List.mem_append, List.mem_reverse, List.mem_map] at howned
    rcases howned with ⟨v, hv, heq⟩ | hold
    · obtain ⟨rfl, rfl⟩ := Prod.mk.inj heq
      obtain ⟨hv, hopens⟩ := mem_openers.mp hv
      obtain ⟨hge, hlt⟩ := h.mem_numbers hv hopens
      exact ⟨fun hid => absurd (hid ▸ hge) (Nat.not_le_of_lt hpos), hlt⟩
    · obtain ⟨hid, hlt⟩ := ha.owned hold
      exact ⟨hid, Nat.lt_of_lt_of_le hlt hlength⟩

/-- Building at a tree keeps scopes in order, and the current scope among them. -/
theorem Ordered.visit {t : ScopeTree} (h : t.Ordered) {current : Nat}
    (hcurrent : current < t.scopes.length) (tree : Tree) :
    (tree.fold visitNode current t).Ordered
      ∧ current < (tree.fold visitNode current t).scopes.length := by
  have hgrown := grown_recorded tree hcurrent
  rw [Tree.recorded_snd] at hgrown
  refine ⟨h.grown hgrown, ?_⟩
  rw [hgrown.length_eq]
  exact Nat.lt_add_right _ hcurrent

theorem Ordered.visits {t : ScopeTree} (h : t.Ordered) {current : Nat}
    (hcurrent : current < t.scopes.length) (trees : List Tree) :
    (trees.foldl (fun u c => c.fold visitNode current u) t).Ordered
      ∧ current < (trees.foldl (fun u c => c.fold visitNode current u) t).scopes.length := by
  induction trees generalizing t with
  | nil => exact ⟨h, hcurrent⟩
  | cons c trees ih => exact ih (h.visit hcurrent c).1 (h.visit hcurrent c).2

/-- Building at a tree comes to a node below it: with a current scope, and with the scopes that
there are by then. -/
inductive ComesTo : Tree → Nat → ScopeTree → Tree → Nat → ScopeTree → Prop where
  | here (tree : Tree) (current : Nat) (t : ScopeTree) : ComesTo tree current t tree current t
  | part {l : Label} {s : Span} {cs : List Tree} {current : Nat} {t : ScopeTree} {i : Nat}
      {c e : Tree} {current' : Nat} {t' : ScopeTree} (hl : l.isImport = false)
      (hc : cs[i]? = some c)
      (h : ComesTo c (t.entered l s cs current).1
        ((cs.take i).foldl (fun u c => c.fold visitNode (t.entered l s cs current).1 u)
          (t.entered l s cs current).2) e current' t') :
      ComesTo (.node l s cs) current t e current' t'

/-- Wherever building comes to, the scopes are in order and the current one is among them. -/
theorem Ordered.comesTo {tree e : Tree} {current current' : Nat} {t t' : ScopeTree}
    (ht : t.Ordered) (hcurrent : current < t.scopes.length)
    (h : ComesTo tree current t e current' t') : t'.Ordered ∧ current' < t'.scopes.length := by
  induction h with
  | here => exact ⟨ht, hcurrent⟩
  | @part l s cs current t i c _ _ _ hl hc h ih =>
    have hgrown := grown_entered s cs hl hcurrent
    have hinner : (t.entered l s cs current).1 < (t.entered l s cs current).2.scopes.length :=
      hgrown.inner_lt (List.mem_singleton_self _)
    obtain ⟨hbefore, hlt⟩ := (ht.grown hgrown).visits hinner (cs.take i)
    exact ih hbefore hlt

/-! ## What is found -/

/-- The scope where the walk for a hoisted declaration stops. -/
def stopsHoisting (s : Scope) : Bool :=
  s.kind = .root || s.kind = .function || s.parent.isNone

section

variable {t : ScopeTree} {id : Nat}

theorem findOwner_eq (t : ScopeTree) (id : Nat) (name : String) :
    t.findOwner id name = (t.chain id).find? fun k => (t.scope? k).any (·.declares name) := by
  unfold findOwner declaresAt
  congr 1
  funext k
  cases t.scope? k <;> rfl

/-- A hoisted declaration has a scope to go to, which the walk comes to and which is nearest. -/
theorem Ordered.hoistTarget (h : t.Ordered) (hid : id < t.scopes.length) :
    t.Walk stopsHoisting id (some (t.hoistTarget id))
      ∧ t.Nearest t.hoistsAt id (t.hoistTarget id) := by
  have hstops : ∀ k ∈ t.chain id, (t.scope? k).any stopsHoisting = t.hoistsAt k := by
    intro k hk
    obtain ⟨s, hs⟩ := exists_scope (Nat.lt_of_le_of_lt (t.le_of_mem_chain hk) hid)
    have hparent : s.parent.isNone = true → s.kind = .root := by
      rw [Option.isNone_iff_eq_none, h.parent_eq_none_iff hs, h.kind_eq_root_iff hs]
      exact fun hroot => hroot
    rw [hoistsAt, hs, Option.any_some, stopsHoisting]
    cases hnone : s.parent.isNone with
    | false => simp
    | true => simp [hparent hnone]
  obtain ⟨found, hfound⟩ : ∃ found, (t.chain id).find? t.hoistsAt = some found := by
    rw [← Option.ne_none_iff_exists', Ne, (h.find?_chain hid t.hoistsAt).2]
    -- The root takes what nothing further in takes.
    intro hnone
    obtain ⟨root, hroot, hkind, -⟩ := h.root
    have hnot := hnone rootId (h.around_root hid)
    simp [hoistsAt, hroot, hkind] at hnot
  have htarget : t.hoistTarget id = found := by rw [ScopeTree.hoistTarget, hfound, Option.getD_some]
  rw [htarget]
  refine ⟨?_, h.nearest_of_find? hid hfound⟩
  have hwalk := h.walk stopsHoisting hid
  rwa [List.find?_congr hstops, hfound] at hwalk

/-- Looking up from a scope: both walks come to an end, and what they find is nearest. -/
structure Finds (t : ScopeTree) (id : Nat) : Prop where
  hoists : t.Walk stopsHoisting id (some (t.hoistTarget id))
  hoistTarget_nearest : t.Nearest t.hoistsAt id (t.hoistTarget id)
  owns : ∀ name, t.Walk (·.declares name) id (t.findOwner id name)
  findOwner_eq_some_iff : ∀ name found,
    t.findOwner id name = some found ↔ t.Nearest (t.declaresAt name) id found
  findOwner_eq_none_iff : ∀ name,
    t.findOwner id name = none ↔ ∀ k, t.Around id k → t.declaresAt name k = false

theorem Ordered.finds (h : t.Ordered) (hid : id < t.scopes.length) : t.Finds id where
  hoists := (h.hoistTarget hid).1
  hoistTarget_nearest := (h.hoistTarget hid).2
  owns name := by
    rw [findOwner_eq]
    exact h.walk _ hid
  findOwner_eq_some_iff name := (h.find?_chain hid (t.declaresAt name)).1
  findOwner_eq_none_iff name := (h.find?_chain hid (t.declaresAt name)).2

end

end ScopeTree

/-! ## Cursors -/

namespace ScopeCursor

/-- What a cursor is told: to enter the node of a span, or to leave again, given whether entering
found a scope. -/
inductive Call where
  | enter (span : Span)
  | leave (entered : Bool)

/-- The cursor after a call. -/
def after (c : ScopeCursor) : Call → ScopeCursor
  | .enter span => (c.enter? span).getD c
  | .leave entered => if entered then c.leave else c

/-- The open scopes of the cursor are scopes of some tree. -/
structure Within (t : ScopeTree) (c : ScopeCursor) : Prop where
  tree : c.tree = t
  stack : ∀ id ∈ c.stack, id < t.scopes.length

variable {t : ScopeTree} {c : ScopeCursor}

theorem scopeOf?_lt (h : t.Ordered) {span : Span} {id : Nat} (hid : t.scopeOf? span = some id) :
    id < t.scopes.length := by
  obtain ⟨owner, howner, rfl⟩ := Option.map_eq_some_iff.mp hid
  exact (h.owned (List.mem_of_find?_eq_some howner)).2

theorem Within.after (h : t.Ordered) (hc : c.Within t) (call : Call) :
    (c.after call).Within t := by
  cases call with
  | enter span =>
    cases hid : t.scopeOf? span with
    | none =>
      have henter : c.after (.enter span) = c := by
        rw [ScopeCursor.after, enter?, hc.tree, hid, Option.map_none, Option.getD_none]
      rwa [henter]
    | some id =>
      have henter : c.after (.enter span) = { c with stack := id :: c.stack } := by
        rw [ScopeCursor.after, enter?, hc.tree, hid, Option.map_some, Option.getD_some]
      rw [henter]
      exact ⟨hc.tree, List.forall_mem_cons.mpr ⟨scopeOf?_lt h hid, hc.stack⟩⟩
  | leave entered =>
    cases entered with
    | false => exact hc
    | true => exact ⟨hc.tree, fun id hid => hc.stack id (List.mem_of_mem_tail hid)⟩

theorem Within.calls (h : t.Ordered) (hc : c.Within t) (calls : List Call) :
    (calls.foldl ScopeCursor.after c).Within t := by
  induction calls generalizing c with
  | nil => exact hc
  | cons call calls ih => exact ih (hc.after h call)

/-- A cursor that left all scopes is at the root. -/
theorem Within.current_lt (h : t.Ordered) (hc : c.Within t) : c.current < t.scopes.length := by
  cases hstack : c.stack with
  | nil =>
    obtain ⟨root, hroot, -⟩ := h.root
    rw [current, hstack]
    exact ScopeTree.lt_of_scope? hroot
  | cons id stack =>
    rw [current, hstack]
    exact hc.stack id (hstack ▸ List.mem_cons_self)

end ScopeCursor

/-! ## The scopes of a script -/

/-- In JSON, the scope at a position is the one with the number of the position. -/
theorem ScopeTree.toJson_numbered (t : ScopeTree) :
    ∃ items, t.toJson = .object [("scopes", .array items)] ∧ items.length = t.scopes.length
      ∧ ∀ id item, items[id]? = some item →
        ∃ fields, item = .object fields ∧ Json.lookup "id" fields = some (.nat id) := by
  refine ⟨_, rfl, List.length_mapIdx, fun id item hitem => ?_⟩
  rw [List.getElem?_mapIdx, Option.map_eq_some_iff] at hitem
  obtain ⟨s, -, rfl⟩ := hitem
  exact ⟨_, rfl, rfl⟩

/-- The scopes of a script are in order and have their positions as numbers; so are they when
building comes to any node of the script, at a scope that there is by then. From each scope, the
walks for a hoisted declaration and for a name then come to an end without the number of no scope,
and find the nearest scope that takes the declaration, and the nearest that declares the name if
there is any. A cursor is at a scope after any calls. -/
theorem build_ordered (statements : List Tree) :
    let t := ScopeTree.build statements
    t.Ordered
    ∧ (∃ items, t.toJson = .object [("scopes", .array items)] ∧ items.length = t.scopes.length
      ∧ ∀ id item, items[id]? = some item →
        ∃ fields, item = .object fields ∧ Json.lookup "id" fields = some (.nat id))
    ∧ (∀ id < t.scopes.length, t.Finds id)
    ∧ (∀ e current u,
      ScopeTree.ComesTo (scriptTree statements) ScopeTree.rootId .start e current u →
      u.Ordered ∧ current < u.scopes.length ∧ ∀ id < u.scopes.length, u.Finds id)
    ∧ ∀ calls : List ScopeCursor.Call,
      (calls.foldl ScopeCursor.after (.start t)).current < t.scopes.length := by
  intro t
  have hordered : t.Ordered := ScopeTree.start_ordered.grown (grown_build statements)
  refine ⟨hordered, t.toJson_numbered, fun id => hordered.finds, fun e current u hcomes => ?_,
    fun calls => ?_⟩
  · obtain ⟨hu, hcurrent⟩ := ScopeTree.start_ordered.comesTo (by decide) hcomes
    exact ⟨hu, hcurrent, fun id => hu.finds⟩
  · have hroot : ScopeTree.rootId < t.scopes.length := by
      obtain ⟨root, hroot, -⟩ := hordered.root
      exact ScopeTree.lt_of_scope? hroot
    have hstart : (ScopeCursor.start t).Within t :=
      ⟨rfl, List.forall_mem_singleton.mpr hroot⟩
    exact (hstart.calls hordered calls).current_lt hordered

/-- A block in a function gives its `var` to the function, and a cursor that left too often is at
the root. -/
example :
    let t := ScopeTree.build
      (programTree "function f() \x7b \x7b var x; let y \x7d \x7d".toList).statements
    t.scopes.map (·.kind) = [.root, .function, .block] ∧ t.hoistTarget 2 = 1
      ∧ t.findOwner 2 "x" = some 1 ∧ t.findOwner 2 "y" = some 2 ∧ t.findOwner 2 "z" = none
      ∧ ([.leave true, .leave true].foldl ScopeCursor.after (.start t)).current = 0 := by
  decide +kernel

end Reactive.Script
