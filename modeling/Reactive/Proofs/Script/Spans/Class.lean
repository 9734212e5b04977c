/-
  What classes spend.
-/
import Reactive.Proofs.Script.Spans.Pattern

namespace Reactive.Script.Parser

section

variable {n : Nat} {r : Rules}

theorem Costs.checkPrivateName (key : Tree) : Costs n (checkPrivateName key) fun _ => 0 :=
  fun s => by
    unfold Parser.checkPrivateName
    split
    · exact Costs.flaw s
    · exact .pure (Nat.le_refl _)

theorem Rules.Spend.staticBlock (hr : r.Spend n) ( begin : Nat) :
    Costs n (staticBlock r begin) (Tree.opensAt n) := fun _ =>
  .skip (.expectPunct _) fun _ _ =>
    .step (.within (.itemsUntil .atClose (hr.statement .list) _)) fun _ _ =>
      .skip (.expectPunct _) fun _ _ => .node rfl (Nat.le_refl _)

/-! ## Words before a name -/

theorem Looks.atStaticBlock : Looks atStaticBlock :=
  (Looks.atWord _).bind fun _ => .ite (Looks.following.bind fun _ => .pure _) (.pure _)

theorem Looks.modifierHere? (h : MemberHead) : Looks (modifierHere? h) := by
  refine .bind .kind fun k => ?_
  split
  · split
    · rename_i w _ m _
      have hrest (blocked : Bool) : Looks (do
          if blocked || !(← Parser.atModifier w (m ≠ .static)) then return none
          else return some m) :=
        .bind (.atModifier _ _) fun _ => .ite (.pure _) (.pure _)
      exact .ite (.bind .atStaticBlock fun _ => .bind (.pure _) hrest) (.bind (.pure _) hrest)
    · exact .pure _
  · exact .pure _

theorem Costs.memberHead : ∀ bound h, Costs n (memberHead bound h) fun _ => 0
  | 0, _ => fun _ => .throw _
  | bound + 1, h => fun s => by
    refine .look (.modifierHere? h) fun m _ => ?_
    split
    · exact .pure (Nat.le_refl _)
    · exact .skip (.flawIf _) fun _ _ => .skip .advanceKeyword fun _ s => Costs.memberHead bound _ s

/-! ## Members -/

theorem Rules.Spend.accessorMethod (hr : r.Spend n) ( begin : Nat) (decorated : List Tree)
    (kind : MethodKind) (h : MemberHead) (s : State) :
    Spends n s (Tree.allOpenAt n decorated) (accessorMethod r begin decorated kind h)
      (Tree.opensAt n) := by
  refine .skip (.flawIf _) fun _ _ => .step (hr.propertyName true) fun ⟨key, computed⟩ _ => ?_
  refine .skip (.checkPrivateName _) fun _ _ => .skip (.flawIf _) fun _ _ =>
    .skip (.flawIf _) fun _ _ => .step (hr.methodFunction _ _) fun f s => ?_
  have hnode (s : State) : Spends n s
      (f.opensAt n + (key.opensAt n + Tree.allOpenAt n decorated))
      (node (.method kind computed h.marks) begin (decorated ++ [key, f])) (Tree.opensAt n) :=
    .node rfl (by simp; omega)
  dsimp only
  split
  · exact .skip (.checkGetter f) fun _ s => hnode s
  · exact .skip (.checkSetter f) fun _ s => hnode s

theorem Rules.Spend.fieldValue (hr : r.Spend n) (accessor : Bool) :
    Costs n (fieldValue r accessor) (Tree.opensAt n) := fun s => by
  unfold Parser.fieldValue
  split
  · exact Costs.within hr.assignment s
  · exact Costs.within hr.expression s

theorem Rules.Spend.fieldRest (hr : r.Spend n) ( begin : Nat) (decorated : List Tree) (key : Tree)
    (computed : Bool) (h : MemberHead) (s : State) :
    Spends n s (key.opensAt n + Tree.allOpenAt n decorated)
      (fieldRest r begin decorated key computed h) (Tree.opensAt n) := by
  refine .skip (.flawIf _) fun _ _ => .skip (.flawIf _) fun _ _ => .skip (.eatPunct _) fun _ _ => ?_
  refine .ite (fun _ => ?_) fun _ => ?_
  · exact .step (hr.fieldValue _) fun value _ => .skip .endStatement fun _ _ =>
      .node rfl (by simp; omega)
  · exact .given <| .skip .endStatement fun _ _ => .node rfl (by simp; omega)

theorem Rules.Spend.methodRest (hr : r.Spend n) ( begin : Nat) (decorated : List Tree) (key : Tree)
    (computed generator : Bool) (h : MemberHead) (s : State) :
    Spends n s (key.opensAt n + Tree.allOpenAt n decorated)
      (methodRest r begin decorated key computed generator h) (Tree.opensAt n) :=
  .skip (.flawIf _) fun _ _ => .skip (.flawIf _) fun _ _ => .skip (.flawIf _) fun _ _ =>
    .step (hr.methodFunction _ _) fun f _ => .node rfl (by simp; omega)

theorem Rules.Spend.memberRest (hr : r.Spend n) ( begin : Nat) (decorated : List Tree)
    (h : MemberHead) (s : State) :
    Spends n s (Tree.allOpenAt n decorated) (memberRest r begin decorated h) (Tree.opensAt n) := by
  refine .look (.atModifier _ _) fun _ _ => .ite (fun _ => ?_) fun _ => ?_
  · exact .skip .advanceKeyword fun _ s => hr.accessorMethod begin decorated .get h s
  refine .look (.atModifier _ _) fun _ _ => .ite (fun _ => ?_) fun _ => ?_
  · exact .skip .advanceKeyword fun _ s => hr.accessorMethod begin decorated .set h s
  refine .skip (.eatPunct _) fun generator _ => .step (hr.propertyName true) fun ⟨key, computed⟩ _ =>
    .skip (.checkPrivateName _) fun _ _ => .skip (.eatPunct _) fun optional _ =>
      .look (.atPunct _) fun _ _ => .ite (fun _ => ?_) fun _ => ?_
  · exact hr.methodRest begin decorated key computed generator _ _
  · exact .skip (.eatPunct _) fun _ _ => .skip (.flawIf _) fun _ s =>
      hr.fieldRest begin decorated key computed _ s

theorem Rules.Spend.classMember (hr : r.Spend n) : Costs n (classMember r) (Tree.opensAt n) := by
  intro s
  refine .start <| .step hr.decorators fun decorated _ => .start <| .skip (.memberHead _ _) fun h _ =>
    .look .atStaticBlock fun _ _ => .ite (fun _ => ?_) fun _ => ?_
  · refine .start <| .skip (.flawIf _) fun _ _ => .skip .advanceKeyword fun _ s => ?_
    exact (hr.staticBlock _ s).less (Nat.zero_le _)
  · exact hr.memberRest _ decorated h _

/-! ## Classes -/

theorem Rules.Spend.classBody (hr : r.Spend n) : Costs n (classBody r) (Tree.opensAt n) := by
  have hmember : Costs n (do
      if ← Parser.eatPunct ";" then return none
      else return some (← Parser.classMember r)) fun m => (m.map (Tree.opensAt n)).getD 0 :=
    fun _ => .skip (.eatPunct _) fun _ _ => .ite (fun _ => .pure (Nat.le_refl _)) fun _ =>
      .step hr.classMember fun m _ => .pure (Nat.le_refl _)
  have hmembers (ms : List (Option Tree)) :
      Tree.allOpenAt n (ms.filterMap id) = (ms.map fun m => (m.map (Tree.opensAt n)).getD 0).sum := by
    induction ms with
    | nil => rfl
    | cons m ms ih =>
      cases m with
      | none => exact ih.trans (Nat.zero_add _).symm
      | some t => exact (Tree.allOpenAt_cons n t _).trans (congrArg _ ih)
  exact fun _ => .start <| .skip (.expectPunct _) fun _ _ => .step (.itemsUntil .atClose hmember _)
    fun ms _ => .skip (.expectPunct _) fun _ _ => .node rfl (hmembers ms).le

theorem Spends.interfaceSteps ( begin : Nat) : ∀ bound (t : Tree) (s : State),
    Spends n s (t.opensAt n) (interfaceSteps begin bound t) (Tree.opensAt n)
  | 0, _, _ => .throw _
  | bound + 1, t, s => by
    refine .skip (.eatPunct _) fun _ _ => .ite (fun _ => ?_) fun _ => .pure (Nat.le_refl _)
    exact .step .anyWord fun p _ => .bind (.node rfl (by simp; omega)) fun t s =>
      Spends.interfaceSteps begin bound t s

theorem Costs.interfaceName (r : Rules) : Costs n (interfaceName r) (Tree.opensAt n) := by
  intro s
  refine .token ?_
  split
  · rename_i w _
    have hrest (s' : State) : Spends n s' 0 (do
        Parser.advance
        Parser.interfaceSteps s.token.start r.bound
          (.node (.identifier w) ⟨s.token.start, s.token.stop⟩ [])) (Tree.opensAt n) :=
      .skip .advance fun _ s' => (Spends.interfaceSteps _ _ _ s').less
        (Tree.opensAt_leaf n rfl _).le
    exact .ite (fun _ => .stopped) fun _ => hrest s
  · exact .unexpected

theorem Costs.interfaceNames (r : Rules) :
    ∀ bound, Costs n (interfaceNames r bound) (Tree.allOpenAt n)
  | 0 => fun _ => .throw _
  | bound + 1 => fun _ => .step (.interfaceName r) fun t _ => .skip (.eatPunct _) fun _ _ =>
      .ite (fun _ => .step (Costs.interfaceNames r bound) fun ts _ => .pure (by simp; omega))
        fun _ => .pure (by simp)

theorem Costs.interfaces (r : Rules) : Costs n (interfaces r) (Tree.opensAt n) := fun _ =>
  .start <| .skip (.eatWord _) fun _ _ => .ite
    (fun _ => .step (.interfaceNames r _) fun _ _ => .node rfl (Nat.le_refl _))
    fun _ => .pure (by simp)

theorem Costs.className : Costs n className (Tree.opensAt n) := by
  intro s
  refine .kind ?_
  split
  · exact .ite (fun _ => Costs.bindingName s) fun _ => .pure (by simp)
  · exact .pure (by simp)

theorem Rules.Spend.classFrom (hr : r.Spend n) {place : Nat} (form : ClassForm) ( begin : Nat)
    (decorated : List Tree) (s : State) :
    Spends n s (Tree.allOpenAt n decorated) (classFrom r form begin decorated)
      (Tree.dueAt n place) := by
  have hrest (name parent : Tree) (s : State) : Spends n s
      (parent.opensAt n + (name.opensAt n + Tree.allOpenAt n decorated)) (do
        let types ← Parser.interfaces r
        let body ← within (fun c => { c with inDecorator := false }) (Parser.classBody r)
        node (.classNode form) begin (decorated ++ [name, parent, types, body]))
      (Tree.dueAt n place) :=
    .step (.interfaces r) fun types _ => .step (.within hr.classBody) fun body _ =>
      .nodeDue rfl rfl (by simp; omega)
  refine .skip (.expectWord _) fun _ _ => .step .className fun name _ =>
    .skip (.eatWord _) fun _ s => .ite (fun _ => ?_) fun _ => ?_
  · exact .step hr.operand fun parent s => hrest name parent s
  · exact .given ((hrest name .absent s).less (by simp))

end

end Reactive.Script.Parser
