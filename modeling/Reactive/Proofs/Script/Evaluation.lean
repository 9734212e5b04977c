/-
  Evaluating scripts.

  What a script means is put together from what its parts mean. A host says what the values, the
  places and the store of a script are and what most productions do; only the productions that
  pass on or drop what their parts give are fixed here. A part gives a value, or a place that a
  value can be read from, and may stop early.

  Everything is indexed by a depth. A host may keep what a function body means at one depth in
  the values of the next one, so that calls and closures need no recursion of their own.
-/
import Reactive.Proofs.Script.Address

namespace Reactive.Script

/-! ## Hosts -/

/-- What a part of a script gives: a value, or a place that a value can be read from. -/
inductive Outcome (Value Place : Type) where
  | value (v : Value)
  | place (p : Place)
deriving DecidableEq, Repr

/-- The stores, values and places of a script at every depth, and the reasons to stop early. -/
structure Carrier where
  Store : Nat → Type
  Value : Nat → Type
  Place : Nat → Type
  Stop : Nat → Type

/-- Computations at a depth, which may change the store and stop early. -/
abbrev Carrier.Effect (K : Carrier) (k : Nat) : Type → Type :=
  ExceptT (K.Stop k) (StateM (K.Store k))

/-- What a part of a script means. -/
abbrev Carrier.Action (K : Carrier) : Type :=
  (k : Nat) → K.Effect k (Outcome (K.Value k) (K.Place k))

/-- A host: how places are read, which values decide conditions, and what productions do. -/
structure Host extends Carrier where
  undefined : (k : Nat) → Value k
  load : {k : Nat} → Place k → toCarrier.Effect k (Value k)
  truthy : {k : Nat} → Value k → Bool
  nullish : {k : Nat} → Value k → Bool
  /-- What a production does, given what its parts mean. -/
  perform : Label → Span → List toCarrier.Action → toCarrier.Action

/-! ## Productions that pass on what their parts give -/

/-- What a production does with what its parts give. -/
inductive Flow where
  /-- It gives what its only part gives. -/
  | inner
  /-- Its parts are evaluated in order; it gives the value of the last one. -/
  | last
  /-- The first part decides which of the other two gives the value. -/
  | choice
  /-- The first part decides whether it gives the value itself. -/
  | short (op : LogicalOp)
  /-- The host decides, but does not see what some of the parts give. -/
  | hosted (dropped : Nat → Bool)

/-- The parts of a production that are statements, or whose values are dropped. -/
def Label.drops : Label → Nat → Bool
  | .program, _ | .block, _ | .staticBlock, _ | .tryStatement, _ | .unary .void, _ => true
  | .ifStatement, i | .switchCase, i => i != 0
  | .doWhile, i => i == 0
  | .whileStatement, i | .withStatement, i | .labeled, i | .catchClause, i => i == 1
  | .forStatement, i => i != 1
  | .forIn, i | .forOf _, i | .function .., i => i == 2
  | .arrow _ concise _ _, i => !concise && i == 1
  | _, _ => false

/-- The flow of a production. The body of an arrow without braces is an expression statement, and
what the statement gives is the value of a call. -/
def Label.flow : Label → Flow
  | .paren | .body => .inner
  | .sequence | .expressionStatement => .last
  | .conditional => .choice
  | .logical op => .short op
  | l => .hosted l.drops

/-- Whether the value of a part matters, given the number of parts and whether the value of the
whole matters. -/
def Flow.uses : Flow → Nat → Bool → Nat → Bool
  | .inner, 1, used, _ => used
  | .last, n, used, i => used && i + 1 == n
  | .choice, 3, used, i => used || i == 0
  | .short _, 2, used, i => used || i == 0
  | .hosted dropped, _, _, i => !dropped i
  | _, _, _, _ => false

namespace Host

variable (H : Host)

/-- Reads the value of an outcome. -/
def get {k : Nat} : Outcome (H.Value k) (H.Place k) → H.Effect k (H.Value k)
  | .value v => pure v
  | .place p => H.load p

/-- An action that gives the value of what it gives. -/
def valued (a : H.Action) : H.Action := fun k => do
  let v ← H.get (← a k)
  pure (.value v)

/-- One action and then another one; the value of the first is read and dropped. -/
def before (a b : H.Action) : H.Action := fun k => do
  let _ ← H.get (← a k)
  b k

/-- An action whose value is read and dropped; it gives the undefined value. -/
def mute (a : H.Action) : H.Action := H.before a fun k => pure (.value (H.undefined k))

/-- Actions in order; the value of the last one is given. -/
def inOrder : List H.Action → H.Action
  | [] => fun k => pure (.value (H.undefined k))
  | [a] => H.valued a
  | a :: b :: rest => H.before a (inOrder (b :: rest))

/-- The value settles a logical operator: the second operand is left alone. -/
def settles {k : Nat} (op : LogicalOp) (v : H.Value k) : Bool :=
  match op with
  | .or => H.truthy v
  | .and => !H.truthy v
  | .coalesce => !H.nullish v

/-- The value of one of two actions, as a third one decides. -/
def choose (test a b : H.Action) : H.Action := fun k => do
  let v ← H.get (← test k)
  if H.truthy v then H.valued a k else H.valued b k

/-- The value of an action if it settles the operator, else that of another one. -/
def orElse (op : LogicalOp) (a b : H.Action) : H.Action := fun k => do
  let v ← H.get (← a k)
  if H.settles op v then pure (.value v) else H.valued b k

/-- A node, given what its children mean. Where there is nothing to pass on, the host sees no
values at all. -/
def node (l : Label) (s : Span) (parts : List H.Action) : H.Action :=
  match l.flow, parts with
  | .inner, [a] => a
  | .last, parts => H.inOrder parts
  | .choice, [test, a, b] => H.choose test a b
  | .short op, [a, b] => H.orElse op a b
  | .hosted dropped, parts =>
    H.perform l s (parts.mapIdx fun i a => if dropped i then H.mute a else a)
  | _, parts => H.perform l s (parts.map H.mute)

/-- What a tree means. -/
def eval (t : Tree) : H.Action := t.fold fun l s children => H.node l s (children.map (·.2))

theorem eval_node (l : Label) (s : Span) (cs : List Tree) :
    H.eval (.node l s cs) = H.node l s (cs.map H.eval) := by
  unfold eval
  rw [Tree.fold_node, List.map_map]
  rfl

/-! ## Values that do not matter -/

/-- What is left of an action if its value does not matter. -/
def observe (used : Bool) (a : H.Action) : H.Action := if used then a else H.mute a

@[simp] theorem observe_true (a : H.Action) : H.observe true a = a := rfl

@[simp] theorem observe_false (a : H.Action) : H.observe false a = H.mute a := rfl

/-- What comes first matters only through its effect. -/
theorem before_mute (a b : H.Action) : H.before (H.mute a) b = H.before a b := by
  funext k
  simp [mute, before, get]

@[simp] theorem mute_mute (a : H.Action) : H.mute (H.mute a) = H.mute a := H.before_mute a _

theorem mute_before (a b : H.Action) : H.mute (H.before a b) = H.before a (H.mute b) := by
  funext k
  simp [mute, before]

@[simp] theorem mute_valued (a : H.Action) : H.mute (H.valued a) = H.mute a := by
  funext k
  simp [mute, before, valued, get]

/-- A choice whose value does not matter is a choice between effects. -/
theorem mute_choose {test a a' b b' : H.Action} (ha : H.mute a = H.mute a')
    (hb : H.mute b = H.mute b') :
    H.mute (H.choose test a b) = H.mute (H.choose test a' b') := by
  rw [← H.mute_valued a, ← H.mute_valued a'] at ha
  rw [← H.mute_valued b, ← H.mute_valued b'] at hb
  funext k
  simp only [mute, before, choose, bind_assoc]
  congr 1
  funext r
  congr 1
  funext v
  split
  · exact congrFun ha k
  · exact congrFun hb k

theorem mute_orElse {op : LogicalOp} {a b b' : H.Action} (hb : H.mute b = H.mute b') :
    H.mute (H.orElse op a b) = H.mute (H.orElse op a b') := by
  rw [← H.mute_valued b, ← H.mute_valued b'] at hb
  funext k
  simp only [mute, before, orElse, bind_assoc]
  congr 1
  funext r
  congr 1
  funext v
  split
  · rfl
  · exact congrFun hb k

theorem observe_before (used : Bool) (a b : H.Action) :
    H.observe used (H.before a b) = H.before a (H.observe used b) := by
  cases used with
  | true => rfl
  | false => exact H.mute_before a b

/-- The effect of an action does not depend on whether its value matters. -/
theorem mute_eq_of_observe {used : Bool} {a b : H.Action}
    (h : H.observe used a = H.observe used b) : H.mute a = H.mute b := by
  cases used with
  | true => exact congrArg H.mute h
  | false => exact h

/-! ## Parts that agree -/

section

variable {α : Type} {g g' : α → H.Action}

/-- Actions in order agree if the last ones agree and the others have the same effects. -/
theorem observe_inOrder (used : Bool) (cs : List α)
    (h : ∀ i c, cs[i]? = some c → H.observe (Flow.last.uses cs.length used i) (g c)
      = H.observe (Flow.last.uses cs.length used i) (g' c)) :
    H.observe used (H.inOrder (cs.map g)) = H.observe used (H.inOrder (cs.map g')) := by
  induction cs with
  | nil => rfl
  | cons c cs ih =>
    cases cs with
    | nil =>
      have hc : H.observe used (g c) = H.observe used (g' c) := by
        simpa [Flow.uses] using h 0 c rfl
      cases used with
      | true =>
        rw [observe_true, observe_true] at hc
        rw [List.map_singleton, List.map_singleton, hc]
      | false => simpa [inOrder] using hc
    | cons c' cs =>
      -- Not the last one: its value is dropped either way.
      have hc : H.mute (g c) = H.mute (g' c) := by
        simpa [Flow.uses] using h 0 c rfl
      have hrest := ih fun i d hd => by
        have := h (i + 1) d hd
        simpa [Flow.uses] using this
      rw [List.map_cons, List.map_cons, List.map_cons, List.map_cons, inOrder, inOrder,
        observe_before, observe_before, ← H.before_mute (g c), hc, H.before_mute]
      exact congrArg _ hrest

/-- A node means the same as far as it matters if its parts do. -/
theorem observe_node (l : Label) (s : Span) (used : Bool) (cs : List α)
    (h : ∀ i c, cs[i]? = some c → H.observe (l.flow.uses cs.length used i) (g c)
      = H.observe (l.flow.uses cs.length used i) (g' c)) :
    H.observe used (H.node l s (cs.map g)) = H.observe used (H.node l s (cs.map g')) := by
  -- Whether or not their values matter, the parts have the same effects.
  have hmute : (cs.map g).map H.mute = (cs.map g').map H.mute := by
    rw [List.map_map, List.map_map]
    refine List.map_congr_left fun c hc => ?_
    obtain ⟨i, hi⟩ := List.mem_iff_getElem?.mp hc
    exact H.mute_eq_of_observe (h i c hi)
  unfold node
  generalize l.flow = flow at h
  cases flow with
  | inner =>
    match cs with
    | [c] => exact h 0 c rfl
    | [] | _ :: _ :: _ => exact congrArg (fun parts => H.observe used (H.perform l s parts)) hmute
  | last => exact H.observe_inOrder used cs h
  | choice =>
    match cs with
    | [] | [_] | [_, _] | _ :: _ :: _ :: _ :: _ =>
      exact congrArg (fun parts => H.observe used (H.perform l s parts)) hmute
    | [test, a, b] =>
      have htest : g test = g' test := by simpa [Flow.uses] using h 0 test rfl
      have ha : H.observe used (g a) = H.observe used (g' a) := by
        simpa [Flow.uses] using h 1 a rfl
      have hb : H.observe used (g b) = H.observe used (g' b) := by
        simpa [Flow.uses] using h 2 b rfl
      cases used with
      | true =>
        rw [observe_true, observe_true] at ha hb
        simp only [List.map_cons, List.map_nil, htest, ha, hb]
      | false =>
        simp only [List.map_cons, List.map_nil, htest]
        exact H.mute_choose ha hb
  | short op =>
    match cs with
    | [] | [_] | _ :: _ :: _ :: _ =>
      exact congrArg (fun parts => H.observe used (H.perform l s parts)) hmute
    | [a, b] =>
      have ha : g a = g' a := by simpa [Flow.uses] using h 0 a rfl
      have hb : H.observe used (g b) = H.observe used (g' b) := by
        simpa [Flow.uses] using h 1 b rfl
      cases used with
      | true =>
        rw [observe_true, observe_true] at hb
        simp only [List.map_cons, List.map_nil, ha, hb]
      | false =>
        simp only [List.map_cons, List.map_nil, ha]
        exact H.mute_orElse hb
  | hosted dropped =>
    have hshown : (cs.map g).mapIdx (fun i a => if dropped i then H.mute a else a)
        = (cs.map g').mapIdx (fun i a => if dropped i then H.mute a else a) := by
      apply List.ext_getElem?
      intro i
      rw [List.getElem?_mapIdx, List.getElem?_mapIdx, List.getElem?_map, List.getElem?_map]
      cases hi : cs[i]? with
      | none => rfl
      | some c =>
        have hc := h i c hi
        rw [Flow.uses] at hc
        simp only [Option.map_some, Option.some_inj]
        cases hd : dropped i with
        | true =>
          rw [hd] at hc
          rw [if_pos rfl, if_pos rfl]
          exact hc
        | false =>
          rw [hd] at hc
          rw [if_neg (by simp), if_neg (by simp)]
          exact hc
    dsimp only
    rw [hshown]

end

end Host

end Reactive.Script
