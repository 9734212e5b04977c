/-
  Targets and their leaves.

  A target is a variable, a member of something, or a pattern with targets inside. Its leaves are
  the variables and members that its patterns lead to. A leaf is a chain of members and parentheses,
  and it is written through the identifier that the chain starts at, if it starts at one. On the way
  some parts of a target are only evaluated: indices, keys and defaults. Every other reference in a
  target is the start of a leaf, or lies in a leaf that starts at no variable.
-/
import Reactive.Proofs.Facts.Reads

namespace Reactive.Script

/-! ## Parts of targets -/

/-- The label of a variable or a member. -/
def Label.isSingle : Label → Bool
  | .identifier _ | .member _ | .index _ | .privateMember _ => true
  | _ => false

/-- The label of a name that is no variable. -/
def Label.isWord : Label → Bool
  | .word _ | .privateWord _ => true
  | _ => false

/-- The label of an expression that is no variable, no member and no expression in parentheses. -/
def Label.startsChain : Label → Bool
  | .identifier _ | .member _ | .index _ | .privateMember _ | .paren
  | .arrayTarget | .objectTarget | .targetDefault | .targetRest | .targetName
  | .targetProperty _ => false
  | _ => true

/-- The part of a pattern with this number is a target. -/
def Label.leadsOn (l : Label) (i : Nat) : Bool :=
  match l, i with
  | .arrayTarget, _ | .objectTarget, _ | .targetDefault, 0 | .targetRest, 0 | .targetName, 0
  | .targetProperty _, 1 => true
  | _, _ => false

/-- The part of a target with this number is evaluated: an index, a key or a default. -/
def Label.holdsValue (l : Label) (i : Nat) : Bool :=
  match l, i with
  | .index _, 1 | .targetProperty _, 0 | .targetName, 1 | .targetDefault, 1 => true
  | _, _ => false

theorem Label.leadsOn_of_isSingle {l : Label} (h : l.isSingle) (i : Nat) : l.leadsOn i = false := by
  cases l <;> first | rfl | cases h

theorem Label.of_isTargetPattern {l : Label} (h : l.isTargetPattern) :
    l.isSingle = false ∧ ∀ i, l.leadsOn i = true := by
  unfold isTargetPattern at h
  split at h <;> first | exact ⟨rfl, fun _ => rfl⟩ | cases h

theorem Label.holdsValue_of_leadsOn {l : Label} {i : Nat} (h : l.leadsOn i) :
    l.holdsValue i = false := by
  unfold leadsOn at h
  split at h <;> first | rfl | cases h

namespace Tree

/-- An expression as a chain of members and parentheses that starts at a variable or at something
else. What stands as an index may be any expression, and so may keys and defaults in patterns. -/
inductive IsChain : Tree → Prop where
  | identifier (name : String) (s : Span) : IsChain (node (.identifier name) s [])
  | other {l : Label} (s : Span) (cs : List Tree) (hl : l.startsChain) : IsChain (node l s cs)
  | member (optional : Bool) (s : Span) {object : Tree} (name : String) (ns : Span)
      (h : IsChain object) : IsChain (node (.member optional) s [object, node (.word name) ns []])
  | index (optional : Bool) (s : Span) {object : Tree} (key : Tree) (h : IsChain object) :
      IsChain (node (.index optional) s [object, key])
  | privateMember (optional : Bool) (s : Span) {object : Tree} (name : String) (ns : Span)
      (h : IsChain object) :
      IsChain (node (.privateMember optional) s [object, node (.privateWord name) ns []])
  | paren (s : Span) {inner : Tree} (h : IsChain inner) : IsChain (node .paren s [inner])

/-- A target or a part of one: a variable or a member, a pattern, and in a pattern a hole, a target
with a default, a rest, a property under its own name and one under a key. -/
inductive IsTarget : Tree → Prop where
  | single {t : Tree} (hl : t.label.isSingle) (h : t.IsChain) : IsTarget t
  | pattern {l : Label} (s : Span) {cs : List Tree} (hl : l.isTargetPattern)
      (h : ∀ c ∈ cs, IsTarget c) : IsTarget (node l s cs)
  | hole (s : Span) : IsTarget (node .absent s [])
  | withDefault (s : Span) {target : Tree} (value : Tree) (h : IsTarget target) :
      IsTarget (node .targetDefault s [target, value])
  | rest (s : Span) {target : Tree} (h : IsTarget target) : IsTarget (node .targetRest s [target])
  | shorthand (s : Span) (name : String) (ns : Span) (value : Tree) :
      IsTarget (node .targetName s [node (.identifier name) ns [], value])
  | property (computed : Bool) (s : Span) (key : Tree) {target : Tree} (h : IsTarget target) :
      IsTarget (node (.targetProperty computed) s [key, target])

/-- Whether a tree is a chain as above. -/
def isChain : Tree → Bool
  | node (.identifier _) _ cs => cs.isEmpty
  | node (.member _) _ [object, node (.word _) _ []]
  | node (.privateMember _) _ [object, node (.privateWord _) _ []]
  | node (.index _) _ [object, _] => object.isChain
  | node .paren _ [inner] => inner.isChain
  | node l _ _ => l.startsChain

mutual

/-- Whether a tree is a target or a part of one. -/
def isTarget : Tree → Bool
  | node .arrayTarget _ cs | node .objectTarget _ cs => areTargets cs
  | node .absent _ [] => true
  | node .targetDefault _ [target, _] | node .targetRest _ [target]
  | node (.targetProperty _) _ [_, target] => target.isTarget
  | node .targetName _ [node (.identifier _) _ [], _] => true
  | node l s cs => l.isSingle && (node l s cs).isChain

/-- Whether all trees are. -/
def areTargets : List Tree → Bool
  | [] => true
  | t :: ts => t.isTarget && areTargets ts

end

theorem isChain_iff {t : Tree} : t.isChain = true ↔ t.IsChain := by
  constructor
  · intro h
    fun_induction isChain t with
    | case1 x s cs =>
      obtain rfl := List.isEmpty_iff.mp h
      exact .identifier x s
    | case2 o s object x ns ih => exact .member o s x ns (ih h)
    | case3 o s object x ns ih => exact .privateMember o s x ns (ih h)
    | case4 o s object key ih => exact .index o s key (ih h)
    | case5 s inner ih => exact .paren s (ih h)
    | case6 l s cs => exact .other s cs h
  · intro h
    induction h with
    | identifier x s => rfl
    | @other l s cs hl => cases l <;> first | rfl | cases hl
    | member o s x ns _ ih | index o s key _ ih | privateMember o s x ns _ ih | paren s _ ih =>
      exact ih

theorem areTargets_iff {ts : List Tree} :
    areTargets ts = true ↔ ∀ t ∈ ts, t.isTarget = true := by
  induction ts with
  | nil => simp [areTargets]
  | cons t ts ih => simp [areTargets, ih]

theorem isTarget_iff {t : Tree} : t.isTarget = true ↔ t.IsTarget := by
  constructor
  · intro h
    induction t using ind with
    | node l s cs ih =>
      unfold isTarget at h
      split at h
      all_goals
        rename_i heq
        obtain ⟨rfl, rfl, rfl⟩ := Tree.node.inj heq
      · exact .pattern _ rfl fun c hc => ih c hc (areTargets_iff.mp h c hc)
      · exact .pattern _ rfl fun c hc => ih c hc (areTargets_iff.mp h c hc)
      · exact .hole _
      · exact .withDefault _ _ (ih _ List.mem_cons_self h)
      · exact .rest _ (ih _ List.mem_cons_self h)
      · exact .property _ _ _ (ih _ (List.mem_cons_of_mem _ List.mem_cons_self) h)
      · exact .shorthand _ _ _ _
      · obtain ⟨hl, hchain⟩ := Bool.and_eq_true_iff.mp h
        exact .single hl (isChain_iff.mp hchain)
  · intro h
    induction h with
    | @single t hl h =>
      obtain ⟨l, s, cs⟩ := t
      have hchain := isChain_iff.mpr h
      cases l <;> first | exact hchain | cases hl
    | @pattern l s cs hl _ ih =>
      have hparts := areTargets_iff.mpr ih
      unfold Label.isTargetPattern at hl
      split at hl <;> first | exact hparts | cases hl
    | hole s => rfl
    | withDefault s value _ ih | rest s _ ih | property computed s key _ ih => exact ih
    | shorthand s x ns value => rfl

instance (t : Tree) : Decidable t.IsTarget := decidable_of_iff _ isTarget_iff

/-- A node of a target is a single target, or each part of it is a value or again a target. -/
theorem IsTarget.single_or_parts {l : Label} {s : Span} {cs : List Tree}
    (h : (node l s cs).IsTarget) : (l.isSingle ∧ (node l s cs).IsChain)
      ∨ (l.isSingle = false
        ∧ ∀ i c, cs[i]? = some c → l.holdsValue i ∨ (l.leadsOn i ∧ c.IsTarget)) := by
  cases h with
  | single hl h => exact .inl ⟨hl, h⟩
  | pattern s hl h =>
    obtain ⟨hown, hleads⟩ := Label.of_isTargetPattern hl
    exact .inr ⟨hown, fun i c hc => .inr ⟨hleads i, h c (List.mem_of_getElem? hc)⟩⟩
  | hole s => exact .inr ⟨rfl, nofun⟩
  | withDefault s value h =>
    refine .inr ⟨rfl, fun i c hc => ?_⟩
    rcases i with _ | _ | i
    · exact .inr ⟨rfl, Option.some.inj hc ▸ h⟩
    · exact .inl rfl
    · cases hc
  | rest s h =>
    refine .inr ⟨rfl, fun i c hc => ?_⟩
    rcases i with _ | i
    · exact .inr ⟨rfl, Option.some.inj hc ▸ h⟩
    · cases hc
  | shorthand s name ns value =>
    refine .inr ⟨rfl, fun i c hc => ?_⟩
    rcases i with _ | _ | i
    · exact .inr ⟨rfl, Option.some.inj hc ▸ .single rfl (.identifier name ns)⟩
    · exact .inl rfl
    · cases hc
  | property computed s key h =>
    refine .inr ⟨rfl, fun i c hc => ?_⟩
    rcases i with _ | _ | i
    · exact .inl rfl
    · exact .inr ⟨rfl, Option.some.inj hc ▸ h⟩
    · cases hc

/-! ## Chains -/

section

variable {t : Tree} {path : List Nat} {name : String} {s : Span}

/-- A chain that starts at something else than a variable is written through nothing. -/
theorem roots_of_startsChain {l : Label} (hl : l.startsChain) (s : Span) (cs : List Tree) :
    (node l s cs).targetRoots = [] ∧ (node l s cs).chainRoot? = none := by
  rw [targetRoots_node]
  cases l <;> first | exact ⟨rfl, rfl⟩ | cases hl

/-- A chain is written through what it starts at. -/
theorem IsChain.targetRoots (h : t.IsChain) : t.targetRoots = t.chainRoot?.toList := by
  induction h with
  | identifier name s => rfl
  | other s cs hl =>
    obtain ⟨hroots, hroot⟩ := roots_of_startsChain hl s cs
    rw [hroots, hroot, Option.toList_none]
  | member o s name ns _ ih | index o s key _ ih | privateMember o s name ns _ ih | paren s _ ih =>
    rw [targetRoots_node]
    exact ih

/-- A chain starts at itself, if it is an identifier, or at what its first part starts at. -/
theorem chainRoot?_node {l : Label} {s : Span} {cs : List Tree} {root : String × Span} :
    (node l s cs).chainRoot? = some root ↔ (∃ x, l = .identifier x ∧ root = (x, s))
      ∨ ∃ object rest, cs = object :: rest ∧ l.isAccess ∧ object.chainRoot? = some root := by
  constructor
  · intro h
    unfold chainRoot? at h
    split at h
    case h_1 heq =>
      obtain ⟨rfl, rfl, -⟩ := Tree.node.inj heq
      exact .inl ⟨_, rfl, (Option.some.inj h).symm⟩
    case h_6 => cases h
    all_goals
      rename_i heq
      obtain ⟨rfl, -, rfl⟩ := Tree.node.inj heq
      exact .inr ⟨_, _, rfl, rfl, h⟩
  · rintro (⟨x, rfl, rfl⟩ | ⟨object, rest, rfl, hl, h⟩)
    · rfl
    · unfold Label.isAccess at hl
      split at hl <;> first | exact h | cases hl

/-- The root of a tree: the tree itself, if it is an identifier, or the root of its first part. -/
theorem rootAt_node {l : Label} {s : Span} {cs : List Tree} :
    (node l s cs).rootAt path = true ↔ (∃ x, l = .identifier x ∧ path = [])
      ∨ ∃ object rest q, cs = object :: rest ∧ path = 0 :: q ∧ l.isAccess
        ∧ object.rootAt q = true := by
  constructor
  · intro h
    unfold rootAt at h
    split at h
    · rename_i heq
      obtain ⟨rfl, -, -⟩ := Tree.node.inj heq
      exact .inl ⟨_, rfl, rfl⟩
    · rename_i heq
      obtain ⟨rfl, -, rfl⟩ := Tree.node.inj heq
      obtain ⟨hl, h⟩ := Bool.and_eq_true_iff.mp h
      exact .inr ⟨_, _, _, rfl, rfl, hl, h⟩
    · cases h
  · rintro (⟨x, rfl, rfl⟩ | ⟨object, rest, q, rfl, rfl, hl, h⟩)
    · rfl
    · rw [rootAt, hl, h]
      rfl

/-- What a chain starts at is the identifier at its root. -/
theorem chainRoot?_eq_some_iff : t.chainRoot? = some (name, s) ↔
    ∃ q cs, t.rootAt q = true ∧ t.at? q = some (node (.identifier name) s cs) := by
  induction t using ind with
  | node l ls cs ih =>
    rw [chainRoot?_node]
    constructor
    · rintro (⟨x, rfl, hroot⟩ | ⟨object, rest, rfl, hl, h⟩)
      · obtain ⟨rfl, rfl⟩ := Prod.mk.inj hroot
        exact ⟨[], cs, rfl, rfl⟩
      · obtain ⟨q, cs, hq, hat⟩ := (ih object List.mem_cons_self).mp h
        exact ⟨0 :: q, cs, rootAt_node.mpr (.inr ⟨object, rest, q, rfl, rfl, hl, hq⟩), hat⟩
    · rintro ⟨q, ics, hq, hat⟩
      rcases rootAt_node.mp hq with ⟨x, rfl, rfl⟩ | ⟨object, rest, q, rfl, rfl, hl, hq⟩
      · obtain ⟨hx, rfl, -⟩ := Tree.node.inj (Option.some.inj hat)
        exact .inl ⟨name, hx, rfl⟩
      · exact .inr ⟨object, rest, rfl, hl, (ih object List.mem_cons_self).mpr ⟨q, ics, hq, hat⟩⟩

/-- A chain has one name or none. -/
theorem IsChain.targetNames (h : t.IsChain) :
    t.targetNames = (t.chainRoot?.map (·.1)).toList := by
  rw [Tree.targetNames, h.targetRoots]
  cases t.chainRoot? <;> rfl

/-- Of a single target, the chain is all there is. -/
theorem targetRoot?_of_isSingle (h : t.label.isSingle) : t.targetRoot? = t.chainRoot? := by
  obtain ⟨l, s, cs⟩ := t
  cases l with
  | identifier x => rfl
  | member o | index o | privateMember o => cases cs <;> rfl
  | _ => cases h

end

/-! ## Leaves -/

/-- The leaf of a target at an address that leads through patterns only. -/
def leaf? : Tree → List Nat → Option Tree
  | t, [] => if t.label.isSingle then some t else none
  | node l _ cs, i :: path => if l.leadsOn i then cs[i]?.bind fun c => c.leaf? path else none

section

variable {t leaf : Tree} {path : List Nat}

theorem leaf?_nil (h : t.label.isSingle) : t.leaf? [] = some t := by
  rw [leaf?, if_pos h]

theorem leaf?_cons {l : Label} {s : Span} {cs : List Tree} {i : Nat} {c : Tree}
    (hl : l.leadsOn i) (hc : cs[i]? = some c) (path : List Nat) :
    (node l s cs).leaf? (i :: path) = c.leaf? path := by
  rw [leaf?, if_pos hl, hc]
  rfl

/-- A leaf at the empty address is the target itself. -/
theorem of_leaf?_nil (h : t.leaf? [] = some leaf) : t.label.isSingle ∧ t = leaf := by
  rw [leaf?] at h
  split at h
  · rename_i hl
    exact ⟨hl, Option.some.inj h⟩
  · cases h

/-- Any other leaf is one of a part that is a target. -/
theorem of_leaf?_cons {l : Label} {s : Span} {cs : List Tree} {i : Nat}
    (h : (node l s cs).leaf? (i :: path) = some leaf) :
    l.leadsOn i ∧ ∃ c, cs[i]? = some c ∧ c.leaf? path = some leaf := by
  rw [leaf?] at h
  split at h
  · rename_i hl
    exact ⟨hl, Option.bind_eq_some_iff.mp h⟩
  · cases h

theorem at?_of_leaf? (h : t.leaf? path = some leaf) : t.at? path = some leaf := by
  induction path generalizing t with
  | nil => rw [at?_nil, (of_leaf?_nil h).2]
  | cons i path ih =>
    obtain ⟨l, s, cs⟩ := t
    obtain ⟨-, c, hc, h⟩ := of_leaf?_cons h
    rw [at?_cons, hc]
    exact ih h

theorem isSingle_of_leaf? (h : t.leaf? path = some leaf) : leaf.label.isSingle := by
  induction path generalizing t with
  | nil =>
    obtain ⟨hl, rfl⟩ := of_leaf?_nil h
    exact hl
  | cons i path ih =>
    obtain ⟨l, s, cs⟩ := t
    obtain ⟨-, c, -, h⟩ := of_leaf?_cons h
    exact ih h

end

/-! ## References -/

/-- The node at the address is a reference to the variable. -/
def RefersAt (t : Tree) (path : List Nat) (name : String) : Prop :=
  ∃ s cs, t.at? path = some (node (.identifier name) s cs)

/-- The place lies in an index, a key or a default. -/
def inValue : Tree → List Nat → Bool
  | _, [] => false
  | node l _ cs, i :: path =>
    l.holdsValue i || match cs[i]? with
      | some c => c.inValue path
      | none => false

section

variable {t leaf : Tree} {path : List Nat} {name : String}

theorem inValue_cons {l : Label} {s : Span} {cs : List Tree} {i : Nat} {c : Tree}
    (hc : cs[i]? = some c) (path : List Nat) :
    (node l s cs).inValue (i :: path) = (l.holdsValue i || c.inValue path) := by
  rw [inValue, hc]

/-- The root of a tree is reached without going into values. -/
theorem inValue_of_rootAt (h : t.rootAt path = true) : t.inValue path = false := by
  induction path generalizing t with
  | nil => cases t; rfl
  | cons i path ih =>
    obtain ⟨l, s, cs⟩ := t
    rcases rootAt_node.mp h with ⟨x, -, hnil⟩ | ⟨object, rest, q, rfl, heq, hl, hroot⟩
    · cases hnil
    · obtain ⟨rfl, rfl⟩ := List.cons.inj heq
      have hvalue : l.holdsValue 0 = false := by cases l <;> first | rfl | cases hl
      rw [inValue_cons rfl, hvalue, ih hroot, Bool.false_or]

/-- A leaf is reached without going into values. -/
theorem inValue_of_leaf? (h : t.leaf? path = some leaf) (q : List Nat) :
    t.inValue (path ++ q) = leaf.inValue q := by
  induction path generalizing t with
  | nil =>
    obtain ⟨-, rfl⟩ := of_leaf?_nil h
    rfl
  | cons i path ih =>
    obtain ⟨l, s, cs⟩ := t
    obtain ⟨hl, c, hc, h⟩ := of_leaf?_cons h
    rw [List.cons_append, inValue_cons hc, Label.holdsValue_of_leadsOn hl, Bool.false_or]
    exact ih h

theorem refersAt_nil {l : Label} {s : Span} {cs : List Tree} :
    (node l s cs).RefersAt [] name ↔ l = .identifier name := by
  constructor
  · rintro ⟨rs, rcs, hat⟩
    exact (Tree.node.inj (Option.some.inj hat)).1
  · rintro rfl
    exact ⟨s, cs, rfl⟩

/-- A reference below a node that lies in no value is one in a part that is no value. -/
theorem refersAt_part {l : Label} {s : Span} {cs : List Tree} {i : Nat}
    (hat : (node l s cs).RefersAt (i :: path) name)
    (hvalue : (node l s cs).inValue (i :: path) = false) :
    ∃ c, cs[i]? = some c ∧ l.holdsValue i = false
      ∧ c.RefersAt path name ∧ c.inValue path = false := by
  obtain ⟨rs, rcs, hat⟩ := hat
  obtain ⟨c, hc, hat⟩ := exists_child_of_at? hat
  rw [inValue_cons hc] at hvalue
  obtain ⟨hpart, hvalue⟩ := Bool.or_eq_false_iff.mp hvalue
  exact ⟨c, hc, hpart, ⟨rs, rcs, hat⟩, hvalue⟩

/-- A word is no reference and holds none. -/
theorem not_refersAt_word {l : Label} (hl : l.isWord) (s : Span) :
    ¬ (node l s []).RefersAt path name := by
  intro hat
  cases path with
  | nil =>
    obtain rfl := refersAt_nil.mp hat
    cases hl
  | cons i path =>
    obtain ⟨rs, rcs, hat⟩ := hat
    cases hat

/-- If the second part of a node is a value or holds no reference, a reference below the node is one
in the first part. -/
theorem refersAt_first {l : Label} {s : Span} {object other : Tree}
    (hat : (node l s [object, other]).RefersAt path name)
    (hvalue : (node l s [object, other]).inValue path = false) (hl : l.isAccess)
    (hother : l.holdsValue 1 = true ∨ ∀ q, ¬ other.RefersAt q name) :
    ∃ q, object.RefersAt q name ∧ object.inValue q = false := by
  cases path with
  | nil =>
    obtain rfl := refersAt_nil.mp hat
    cases hl
  | cons i path =>
    obtain ⟨c, hc, hpart, hat, hvalue⟩ := refersAt_part hat hvalue
    rcases i with _ | _ | i
    · obtain rfl := Option.some.inj hc
      exact ⟨path, hat, hvalue⟩
    · obtain rfl := Option.some.inj hc
      rcases hother with hval | hnone
      · rw [hpart] at hval
        cases hval
      · exact absurd hat (hnone path)
    · cases hc

/-- A reference in a chain that lies in no index is to what the chain starts at, if it starts at a
variable at all. -/
theorem IsChain.root_of_not_inValue (h : t.IsChain) (hat : t.RefersAt path name)
    (hvalue : t.inValue path = false) :
    t.chainRoot? = none ∨ ∃ s, t.chainRoot? = some (name, s) := by
  induction h generalizing path with
  | identifier x s =>
    cases path with
    | nil =>
      obtain rfl := Label.identifier.inj (refersAt_nil.mp hat)
      exact .inr ⟨s, rfl⟩
    | cons i path =>
      obtain ⟨c, hc, -⟩ := refersAt_part hat hvalue
      cases hc
  | other s cs hl => exact .inl (roots_of_startsChain hl s cs).2
  | member o s x ns _ ih | privateMember o s x ns _ ih =>
    obtain ⟨q, hat, hvalue⟩ :=
      refersAt_first hat hvalue rfl (.inr fun _ => not_refersAt_word rfl ns)
    exact ih hat hvalue
  | index o s key _ ih =>
    obtain ⟨q, hat, hvalue⟩ := refersAt_first hat hvalue rfl (.inl rfl)
    exact ih hat hvalue
  | paren s _ ih =>
    cases path with
    | nil => cases refersAt_nil.mp hat
    | cons i path =>
      obtain ⟨c, hc, -, hat, hvalue⟩ := refersAt_part hat hvalue
      cases i with
      | zero =>
        obtain rfl := Option.some.inj hc
        exact ih hat hvalue
      | succ i => cases hc

/-- A reference in a target that lies in no value lies in a leaf that starts at the variable, or in
one that starts at none. -/
theorem IsTarget.leaf_of_not_inValue (h : t.IsTarget) (hat : t.RefersAt path name)
    (hvalue : t.inValue path = false) : ∃ p leaf, p <+: path ∧ t.leaf? p = some leaf
      ∧ (leaf.chainRoot? = none ∨ ∃ s, leaf.chainRoot? = some (name, s)) := by
  induction path generalizing t with
  | nil =>
    obtain ⟨l, s, cs⟩ := t
    rcases h.single_or_parts with ⟨hl, h⟩ | ⟨hl, -⟩
    · exact ⟨[], _, List.nil_prefix, leaf?_nil hl, h.root_of_not_inValue hat hvalue⟩
    · obtain rfl := refersAt_nil.mp hat
      cases hl
  | cons i path ih =>
    obtain ⟨l, s, cs⟩ := t
    rcases h.single_or_parts with ⟨hl, h⟩ | ⟨-, hparts⟩
    · exact ⟨[], _, List.nil_prefix, leaf?_nil hl, h.root_of_not_inValue hat hvalue⟩
    · -- Outside of values, the way goes on in a part that is a target again.
      obtain ⟨c, hc, hpart, hat, hvalue⟩ := refersAt_part hat hvalue
      rcases hparts i c hc with hval | ⟨hleads, h⟩
      · rw [hpart] at hval
        cases hval
      · obtain ⟨p, leaf, hp, hleaf, hroot⟩ := ih h hat hvalue
        exact ⟨i :: p, leaf, List.cons_prefix_cons.mpr ⟨rfl, hp⟩,
          (leaf?_cons hleads hc p).trans hleaf, hroot⟩

/-- The leaves of a target are chains. -/
theorem IsTarget.isChain_of_leaf? (h : t.IsTarget) (hleaf : t.leaf? path = some leaf) :
    leaf.IsChain := by
  induction path generalizing t with
  | nil =>
    obtain ⟨l, s, cs⟩ := t
    obtain ⟨hl, rfl⟩ := of_leaf?_nil hleaf
    rcases h.single_or_parts with ⟨-, h⟩ | ⟨hno, -⟩
    · exact h
    · exact absurd hl (by simp [hno])
  | cons i path ih =>
    obtain ⟨l, s, cs⟩ := t
    obtain ⟨hleads, c, hc, hleaf⟩ := of_leaf?_cons hleaf
    rcases h.single_or_parts with ⟨hl, -⟩ | ⟨-, hparts⟩
    · rw [Label.leadsOn_of_isSingle hl] at hleads
      cases hleads
    · rcases hparts i c hc with hval | ⟨-, h⟩
      · rw [Label.holdsValue_of_leadsOn hleads] at hval
        cases hval
      · exact ih h hleaf

end

end Tree

end Reactive.Script
