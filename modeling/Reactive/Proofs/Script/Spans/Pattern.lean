/-
  What patterns, parameters and bodies spend.
-/
import Reactive.Proofs.Script.Spans.Credit

namespace Reactive.Script.Parser

section

variable {n : Nat} {r : Rules}

/-! ## Patterns -/

theorem Rules.Spend.propertyName (hr : r.Spend n) (allowPrivate : Bool) :
    Costs n (propertyName r allowPrivate) fun x => x.1.opensAt n := fun s => by
  have hleaf (l : Label) (hl : l.opens = false) (t : Token) : Spends n s 0 (do
      advance
      return (Tree.node l ⟨t.start, t.stop⟩ [], false)) fun x => x.1.opensAt n :=
    .skip .advance fun _ _ => .pure (Tree.opensAt_leaf n hl _).le
  refine .token ?_
  dsimp only
  split
  · exact hleaf _ rfl _
  · exact hleaf _ rfl _
  · exact hleaf _ rfl _
  · exact hleaf _ rfl _
  · split
    · exact hleaf _ rfl _
    · exact .unexpected
  · exact .skip .advance fun _ _ => .step (.within hr.assignment) fun key _ =>
      .skip (.expectPunct _) fun _ _ => .pure (by simp)
  · exact .unexpected

theorem Rules.Spend.withDefault (hr : r.Spend n) {s : State} {held : Nat} ( begin : Nat)
    {pattern : Tree} (h : pattern.opensAt n ≤ held) :
    Spends n s held (withDefault r begin pattern) (Tree.opensAt n) := by
  refine .skip (.eatPunct _) fun ate _ => ?_
  split
  · exact .step (.within hr.assignment) fun value _ => .node rfl (by simp; omega)
  · exact .pure h

theorem Rules.Spend.defaultedPattern (hr : r.Spend n) :
    Costs n (defaultedPattern r) (Tree.opensAt n) := fun _ =>
  .start <| .step hr.pattern fun _ _ => hr.withDefault _ (Nat.le_add_right _ _)

theorem Costs.restList {close : String} {item rest : Parser Tree}
    (hitem : Costs n item (Tree.opensAt n)) (hrest : Costs n rest (Tree.opensAt n)) :
    ∀ bound first afterRest,
      Costs n (restList close item rest bound first afterRest) (Tree.allOpenAt n)
  | 0, _, _ => fun _ => .throw _
  | bound + 1, first, afterRest => fun s => by
    have hlater (afterRest : Bool) : Costs n
        (Parser.restList close item rest bound false afterRest) (Tree.allOpenAt n) :=
      restList hitem hrest bound false afterRest
    unfold Parser.restList
    refine .look (.atPunct close) fun b _ => ?_
    split
    · exact .pure (Nat.le_refl _)
    dsimp only
    split
    case' isFalse =>
      refine .skip (.expectPunct _) fun _ s => .look (.atPunct close) fun b _ => ?_
      split
      · exact .skip (.flawIf _) fun _ _ => .pure (Nat.le_refl _)
    all_goals
      refine .skip (.flawIf _) fun _ s => .look (.atPunct _) fun b _ => ?_
      split
      · exact .step hrest fun t _ => .step (hlater _) fun ts _ => .pure (by simp; omega)
      · exact .step hitem fun t _ => .step (hlater _) fun ts _ => .pure (by simp; omega)

theorem Rules.Spend.bindingRest (hr : r.Spend n) (namesOnly : Bool) :
    Costs n (bindingRest r namesOnly) (Tree.opensAt n) := fun s => by
  refine .start <| .skip (.expectPunct _) fun _ _ => .step hr.pattern fun target s => ?_
  have hnode ( begin : Nat) (s : State) : Spends n s (target.opensAt n + 0)
      (node .bindingRest begin [target]) (Tree.opensAt n) := .node rfl (by simp)
  dsimp only
  split
  · split
    · exact hnode _ s
    · exact .skip .flaw fun _ s => hnode _ s
  · exact hnode _ s

theorem Rules.Spend.patternElement (hr : r.Spend n) :
    Costs n (patternElement r) (Tree.opensAt n) := fun s => by
  refine .look (.atPunct _) fun b _ => ?_
  split
  · exact .pure (by simp)
  · exact hr.defaultedPattern s

theorem Rules.Spend.patternProperty (hr : r.Spend n) :
    Costs n (patternProperty r) (Tree.opensAt n) := fun s => by
  refine .start <| .token <| .step (hr.propertyName false) fun ⟨key, computed⟩ s => ?_
  refine .look (.atPunct _) fun colon _ => .ite (fun _ => ?_) fun _ => ?_
  · dsimp only
    split
    · rename_i w _
      have hname : (Tree.node (.binding w) key.span []).opensAt n ≤ 0 :=
        (Tree.opensAt_leaf n rfl _).le
      exact .bind (hr.withDefault _ hname).keep fun value _ => .node rfl (by simp; omega)
    · exact .unexpected
  · exact .skip (.expectPunct _) fun _ _ => .step hr.defaultedPattern fun value _ =>
      .node rfl (by simp; omega)

theorem Rules.Spend.patternRule (hr : r.Spend n) :
    Costs n (patternRule r) (Tree.opensAt n) := fun s => by
  refine .start <| .kind ?_
  split
  · exact .skip .advance fun _ _ =>
      .step (.restList hr.patternElement (hr.bindingRest false) _ _ _) fun items _ =>
        .skip (.expectPunct _) fun _ _ => .node rfl (Nat.le_refl _)
  · exact .skip .advance fun _ _ =>
      .step (.restList hr.patternProperty (hr.bindingRest true) _ _ _) fun items _ =>
        .skip (.expectPunct _) fun _ _ => .node rfl (Nat.le_refl _)
  · exact Costs.bindingName s

/-! ## Decorators and parameters -/

theorem Costs.checkDecorator (e : Tree) : Costs n (checkDecorator e) fun _ => 0 := fun s => by
  unfold Parser.checkDecorator
  split
  · exact Costs.flaw s
  · exact .pure (Nat.le_refl _)

theorem Rules.Spend.decorators (hr : r.Spend n) :
    Costs n (decorators r) (Tree.allOpenAt n) :=
  .itemsUntil ((Looks.atPunct _).bind fun _ => .pure _) (fun _ =>
    .start <| .skip .advance fun _ _ => .step (.within hr.operand) fun e _ =>
      .skip (.checkDecorator e) fun _ _ => .node rfl (by simp)) _

theorem Rules.Spend.parameter (hr : r.Spend n) : Costs n (parameter r) (Tree.opensAt n) := by
  intro s
  refine .start <| .step hr.decorators fun marks _ => .skip (.flawIf _) fun _ _ =>
    .step hr.pattern fun pattern _ => .skip (.eatPunct _) fun ate _ => ?_
  dsimp only
  split
  · exact .step (.within hr.assignment) fun value _ => .node rfl (by simp; omega)
  · exact .node rfl (by simp; omega)

theorem Rules.Spend.restParameter (hr : r.Spend n) :
    Costs n (restParameter r) (Tree.opensAt n) := fun _ =>
  .start <| .skip (.expectPunct _) fun _ _ => .step hr.pattern fun _ _ => .node rfl (by simp)

/-- The parenthesis that parameters start with is left to the function that they belong to. -/
theorem Rules.Spend.parametersRule (hr : r.Spend n) (s : State) :
    Spends n s 0 (parametersRule r) fun t => t.opensAt n + oneAt n s.token.start :=
  .start <| .bind (.expectPunct _) fun _ _ =>
    .step (.restList hr.parameter hr.restParameter _ _ _) fun _ _ =>
      .skip (.expectPunct _) fun _ _ => .frame _ (.node rfl (Nat.le_refl _))

/-! ## Bodies and functions -/

theorem Rules.Spend.statementsUntil (hr : r.Spend n) {stop : Parser Bool} (hstop : Looks stop) :
    ∀ bound prologue, Costs n (statementsUntil r stop bound prologue) (Tree.allOpenAt n)
  | 0, _ => fun _ => .throw _
  | bound + 1, prologue => fun s => by
    refine .look hstop fun b _ => .ite (fun _ => .pure (Nat.le_refl _)) fun _ => ?_
    refine .get <| .step (hr.statement _) fun t _ => ?_
    dsimp only
    split
    · exact .step (hr.statementsUntil hstop bound true) fun ts _ =>
        .pure (by simp [Tree.opensAt_leaf n (l := .directive _) rfl])
    · exact .step (hr.statementsUntil hstop bound false) fun ts _ => .pure (by simp; omega)

/-- The closing brace of a list of statements, or the end of the script. -/
theorem Looks.atClose : Looks (do return (← Parser.atPunct "\x7d") || (← Parser.atEnd)) :=
  (Looks.atPunct _).bind fun _ => .bind .atEnd fun _ => .pure _

theorem Rules.Spend.functionBody (hr : r.Spend n) : Costs n (functionBody r) (Tree.opensAt n) :=
  fun _ => .start <| .skip (.expectPunct _) fun _ _ =>
    .step (.within (hr.statementsUntil .atClose _ _)) fun _ _ =>
      .skip (.expectPunct _) fun _ _ => .node rfl (Nat.le_refl _)

/-- The parenthesis is left to the function. -/
theorem Rules.Spend.functionRest (hr : r.Spend n) (async generator : Bool) (s : State) :
    Spends n s 0 (functionRest r async generator) fun x =>
      x.1.opensAt n + x.2.opensAt n + oneAt n s.token.start := by
  refine .within <| .bind (hr.parametersRule _) fun ps _ => .look (.atPunct _) fun b _ =>
    .ite (fun _ => ?_) fun _ => ?_
  · exact .step hr.functionBody fun body _ => .pure (by dsimp only; omega)
  · exact .skip .flaw fun _ _ => .skip .endStatement fun _ _ => .pure (by simp)

theorem Rules.Spend.methodFunction (hr : r.Spend n) (async generator : Bool) :
    Costs n (methodFunction r async generator) (Tree.opensAt n) := fun s =>
  .start <| .bind (hr.functionRest async generator s) fun ⟨ps, body⟩ _ =>
    .of_due (.opener rfl (by simp; omega))

/-- A function starts with its keyword, or with `async` before it, which then is in hand. -/
theorem Rules.Spend.functionFrom (hr : r.Spend n) {s : State} {held place : Nat}
    (form : FunctionForm) (rule : NameRule) { begin : Nat} (async : Bool)
    (h : oneAt n begin ≤ oneAt n s.token.start + held) :
    Spends n s held (functionFrom r form rule begin async) (Tree.dueAt n place) := by
  have hrest (name : Tree) (generator : Bool) (s' : State) :
      Spends n s' (name.opensAt n + (oneAt n s.token.start + held)) (do
        let parts ← Parser.functionRest r async generator
        node (.function form async generator false false) begin [name, parts.1, parts.2])
        (Tree.dueAt n place) :=
    .bind (hr.functionRest async generator s').keep fun parts _ => .opener rfl (by simp; omega)
  refine .bind (.expectWord _) fun _ _ => .skip (.eatPunct _) fun generator _ => .kind ?_
  dsimp only
  split
  · refine .ite (fun _ => .ite (fun _ => ?_) fun _ => ?_) fun _ => .unexpected
    · exact .step (.within .bindingName) fun name _ => hrest name generator _
    · exact .step .bindingName fun name _ => hrest name generator _
  · exact .skip (.flawIf _) fun _ _ => (hrest .absent generator _).less (by simp)

theorem Costs.checkGetter (f : Tree) : Costs n (checkGetter f) fun _ => 0 := Costs.flawIf _

theorem Costs.checkSetter (f : Tree) : Costs n (checkSetter f) fun _ => 0 := fun s => by
  unfold Parser.checkSetter
  split
  · exact Costs.flawIf _ s
  · exact Costs.flaw s

end

end Reactive.Script.Parser
