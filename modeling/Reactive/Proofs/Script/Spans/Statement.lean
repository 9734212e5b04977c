/-
  What statements spend.

  A loop, a block, a handler and a function start with a word or a punctuator that is read as a part
  of them. So a statement opens no more scopes at an offset than there is credit for.
-/
import Mathlib.Algebra.Order.BigOperators.Group.List
import Mathlib.Algebra.Order.Group.Nat
import Reactive.Proofs.Script.Spans.Module
import Reactive.Script.Parse

namespace Reactive.Script

/-- The most that a tree counts, wherever it starts. -/
def Tree.mostAt (n : Nat) (t : Tree) : Nat :=
  (if t.label.opens then 1 else 0) + allOpenAt n t.children

theorem Tree.opensAt_le_mostAt (n : Nat) (t : Tree) : t.opensAt n ≤ t.mostAt n := by
  cases t with
  | node l s cs =>
    refine Nat.le_trans (opensAt_node_le n l s cs) (Nat.add_le_add_right ?_ _)
    show (if l.opens then oneAt n s.start else 0) ≤ if l.opens then 1 else 0
    unfold oneAt
    split
    · split <;> omega
    · exact Nat.le_refl _

namespace Parser

section

variable {n : Nat} {r : Rules}

/-! ## Variables -/

theorem Costs.forM {α : Type} {f : α → Parser Unit} (h : ∀ a, Costs n (f a) fun _ => 0) :
    ∀ as : List α, Costs n (as.forM f) fun _ => 0
  | [] => fun _ => .pure (Nat.le_refl _)
  | a :: as => fun _ => .skip (h a) fun _ s => Costs.forM h as s

theorem Costs.checkInitializer (kind : VarKind) (d : Tree) :
    Costs n (checkInitializer kind d) fun _ => 0 := by
  intro s
  unfold Parser.checkInitializer
  split
  · refine .ite (fun _ => ?_) fun _ => .pure (Nat.le_refl _)
    split
    · exact Costs.flawIf _ s
    · exact Costs.flaw s
  · exact .pure (Nat.le_refl _)

theorem Rules.Spend.declaratorRule (hr : r.Spend n) :
    Costs n (declaratorRule r) (Tree.opensAt n) := fun _ =>
  .start <| .step hr.patternRule fun p _ => .skip (.eatPunct _) fun _ _ => .ite
    (fun _ => .step hr.assignmentRule fun v _ => .node rfl (by simp; omega))
    fun _ => .given (.node rfl (by simp))

theorem Rules.Spend.declarators (hr : r.Spend n) :
    ∀ bound, Costs n (declarators r bound) (Tree.allOpenAt n)
  | 0 => fun _ => .throw _
  | bound + 1 => fun _ => .step hr.declaratorRule fun d _ => .skip (.eatPunct _) fun _ _ => .ite
      (fun _ => .step (hr.declarators bound) fun ds _ => .pure (by simp; omega))
      fun _ => .pure (by simp)

/-- The keyword that a declaration starts with is not needed for it. -/
theorem Rules.Spend.variablesRule (hr : r.Spend n) (kind : VarKind) (checked : Bool) :
    Costs n (variablesRule r kind checked) (Tree.mostAt n) := by
  have hnode (ds : List Tree) ( begin : Nat) (s : State) :
      Spends n s (Tree.allOpenAt n ds + 0) (node (.variables kind) begin ds) (Tree.mostAt n) := by
    rintro hs _ _ ⟨rfl, rfl⟩
    exact ⟨hs, by simp [Tree.mostAt, Label.opens, Label.scopeKind?, Tree.label, Tree.children]⟩
  intro s
  refine .start <| .skip .advanceKeyword fun _ s => ?_
  dsimp only
  split
  case' isTrue => refine .skip .advanceKeyword fun _ s => ?_
  all_goals
    refine .step (hr.declarators _) fun ds s => ?_
    split
    · exact .skip (.forM (.checkInitializer kind) ds) fun _ s => hnode ds _ s
    · exact hnode ds _ s

theorem Rules.Spend.variableStatement (hr : r.Spend n) (kind : VarKind) (place : Place) :
    Costs n (variableStatement r kind place) (Tree.opensAt n) := by
  intro s
  refine .start <| .step (hr.variablesRule kind true) fun d _ => .skip .endStatement fun _ _ =>
    .skip (.flawIf _) fun _ _ => ?_
  -- The declaration is read again as a node up to the end of the statement.
  cases d with
  | node l span cs =>
    rintro hs _ _ ⟨rfl, rfl⟩
    exact ⟨hs, Nat.add_le_add_right (Tree.opensAt_le_mostAt n (.node l _ cs)) _⟩

theorem Looks.atUsing (inHead : Bool) : Looks (atUsing inHead) := by
  refine (Looks.atWord _).bind fun _ => .ite (.bind .following fun t => ?_) (.pure _)
  split <;> exact .pure _

theorem Looks.atAwaitUsing (inHead : Bool) : Looks (atAwaitUsing inHead) :=
  (Looks.atWord _).bind fun _ => .ite (.lookahead _) (.pure _)

/-! ## Expressions as statements -/

theorem Spends.expressionEnd {s : State} {held : Nat} ( begin : Nat) {e : Tree}
    (h : e.opensAt n ≤ held) : Spends n s held (expressionEnd begin e) (Tree.opensAt n) :=
  .skip .endStatement fun _ _ => .node rfl (by simpa using h)

theorem Rules.Spend.expressionStatement (hr : r.Spend n) :
    Costs n (expressionStatement r) (Tree.opensAt n) := by
  intro s
  refine .start <| .step hr.expressionRule fun e _ => ?_
  split
  · refine .skip (.eatPunct _) fun _ _ => .ite (fun _ => ?_) fun _ => .expressionEnd _ (by omega)
    exact .step (hr.statement .single) fun body _ =>
      .node rfl (by simp [Tree.opensAt_leaf n (l := .word _) rfl])
  · exact .expressionEnd _ (by omega)

theorem Rules.Spend.letStatement (hr : r.Spend n) (place : Place) :
    Costs n (letStatement r place) (Tree.opensAt n) := by
  intro s
  refine .start <| .look .following fun t _ => .ite (fun _ => ?_) fun _ => ?_
  · exact .step hr.assignmentRule fun e _ => .expressionEnd _ (by omega)
  split
  · exact .step hr.expressionRule fun e _ => .node rfl (by simp)
  · exact .step hr.expressionRule fun e _ => .node rfl (by simp)
  · refine .ite (fun _ => ?_) fun _ => hr.variableStatement _ _ s
    exact .bind (.identifierRule s) fun e _ => .expressionEnd _ (Tree.opensAt_le_dueAt _ _ _)

/-! ## Compound statements -/

theorem Rules.Spend.parenTest (hr : r.Spend n) : Costs n (parenTest r) (Tree.opensAt n) := fun _ =>
  .skip (.expectPunct _) fun _ _ => .step (.within hr.expressionRule) fun e _ =>
    .skip (.expectPunct _) fun _ _ => .pure (by omega)

theorem Rules.Spend.blockRule (hr : r.Spend n) : Costs n (blockRule r) (Tree.opensAt n) := by
  have hitems : Costs n (itemsUntil (do return (← atPunct "\x7d") || (← atEnd))
      (r.statement .list) r.bound) (Tree.allOpenAt n) := .itemsUntil .atClose (hr.statement _) _
  exact fun _ => .start <| .bind (.expectPunct _) fun _ _ => .step hitems fun items _ =>
    .skip (.expectPunct _) fun _ _ => .of_due (.opener rfl (by omega))

theorem Rules.Spend.ifRule (hr : r.Spend n) : Costs n (ifRule r) (Tree.opensAt n) := fun _ =>
  .start <| .skip .advanceKeyword fun _ _ => .step hr.parenTest fun test _ =>
    .step (hr.statement _) fun yes _ => .skip (.eatWord _) fun _ _ => .ite
      (fun _ => .step (hr.statement _) fun no _ => .node rfl (by simp; omega))
      fun _ => .node rfl (by simp; omega)

theorem Rules.Spend.doWhileRule (hr : r.Spend n) : Costs n (doWhileRule r) (Tree.opensAt n) :=
  fun _ => .start <| .skip .advanceKeyword fun _ _ => .step (hr.statement _) fun body _ =>
    .skip (.expectWord _) fun _ _ => .step hr.parenTest fun test _ =>
      .skip (.eatPunct _) fun _ _ => .node rfl (by simp; omega)

theorem Rules.Spend.whileRule (hr : r.Spend n) : Costs n (whileRule r) (Tree.opensAt n) :=
  fun _ => .start <| .skip .advanceKeyword fun _ _ => .step hr.parenTest fun test _ =>
    .step (hr.statement _) fun body _ => .node rfl (by simp; omega)

theorem Rules.Spend.withRule (hr : r.Spend n) : Costs n (withRule r) (Tree.opensAt n) :=
  fun _ => .start <| .skip .advanceKeyword fun _ _ => .step hr.parenTest fun object _ =>
    .step (hr.statement _) fun body _ => .node rfl (by simp; omega)

/-! ## Loops over heads -/

/-- The keyword of a loop is in hand when its head is read. -/
theorem Rules.Spend.forLoop (hr : r.Spend n) ( begin : Nat) (await : Bool) (init : Tree)
    (s : State) :
    Spends n s (init.opensAt n + oneAt n begin) (forLoop r begin await init) (Tree.opensAt n) := by
  have hpart (close : String) : Costs n (do
      if ← atPunct close then return Tree.absent
      else within (fun c => { c with allowIn := true }) (Parser.expressionRule r))
      (Tree.opensAt n) := fun _ =>
    .look (.atPunct _) fun _ _ => .ite (fun _ => .pure (by simp)) fun _ =>
      .within (hr.expressionRule _)
  have hrest (s : State) : Spends n s (init.opensAt n + oneAt n begin) (do
      let part (close : String) : Parser Tree := do
        if ← atPunct close then return .absent
        else within (fun c => { c with allowIn := true }) (Parser.expressionRule r)
      let test ← part ";"
      expectPunct ";"
      let update ← part ")"
      expectPunct ")"
      flawIf await
      let body ← r.statement .single
      node .forStatement begin [init, test, update, body]) (Tree.opensAt n) :=
    .step (hpart ";") fun test _ => .skip (.expectPunct _) fun _ _ =>
      .step (hpart ")") fun update _ => .skip (.expectPunct _) fun _ _ =>
        .skip (.flawIf _) fun _ _ => .step (hr.statement _) fun body _ =>
          .of_due (.opener rfl (by simp; omega))
  refine .skip (.expectPunct _) fun _ s => ?_
  split
  · exact .skip (.forM (.checkInitializer _) _) fun _ s => hrest s
  · exact hrest s

theorem Costs.checkLoopDeclaration (left : Tree) :
    Costs n (checkLoopDeclaration left) fun _ => 0 := by
  intro s
  unfold Parser.checkLoopDeclaration
  split
  · exact Costs.flaw s
  · exact Costs.flaw s
  · exact .pure (Nat.le_refl _)

theorem Rules.Spend.forEach (hr : r.Spend n) ( begin : Nat) (await : Bool) (left : Tree)
    (s : State) :
    Spends n s (left.opensAt n + oneAt n begin) (forEach r begin await left) (Tree.opensAt n) := by
  refine .skip (.eatWord _) fun _ _ => .ite (fun _ => ?_) fun _ => ?_
  · exact .skip (.checkLoopDeclaration left) fun _ _ => .step hr.expressionRule fun object _ =>
      .skip (.expectPunct _) fun _ _ => .skip (.flawIf _) fun _ _ =>
        .step (hr.statement _) fun body _ => .of_due (.opener rfl (by simp; omega))
  · exact .skip (.expectWord _) fun _ _ => .step hr.assignmentRule fun items _ =>
      .skip (.expectPunct _) fun _ _ => .step (hr.statement _) fun body _ =>
        .of_due (.opener rfl (by simp; omega))

theorem Looks.atForKeyword : Looks atForKeyword :=
  (Looks.atWord _).bind fun _ => .bind (.atWord _) fun _ => .pure _

theorem Looks.forDeclaration? : Looks forDeclaration? := by
  refine .bind .kind fun k => ?_
  split
  · exact .pure _
  · exact .pure _
  · refine .bind .following fun t => ?_
    split <;> exact .pure _
  · exact .bind (.atUsing _) fun _ => .pure _
  · exact .bind (.atAwaitUsing _) fun _ => .pure _
  · exact .pure _

/-- A loop starts with its keyword. -/
theorem Rules.Spend.forRule (hr : r.Spend n) {s : State} (hmark : s.token.kind.isMark) :
    Spends n s 0 (forRule r) (Tree.opensAt n) := by
  have hdeclared (k : VarKind) : Costs n (Parser.variablesRule r k false) (Tree.opensAt n) := fun s =>
    (hr.variablesRule k false s).mono (Nat.le_refl _) (Tree.opensAt_le_mostAt n)
  refine .start <| .bind (.advanceKeyword_mark hmark) fun _ s' => .look (.atWord _) fun await _ => ?_
  dsimp only
  split
  case' isTrue =>
    refine .context <| .skip (.flawIf _) fun _ _ => .skip .advanceKeyword fun _ s' => ?_
  -- With `await` or without it, the head is read with the keyword in hand.
  all_goals
    refine .skip (.expectPunct _) fun _ s' => .look (.atPunct _) fun _ _ => .ite (fun _ => ?_)
      fun _ => .look .forDeclaration? fun k _ => ?_
    · exact (hr.forLoop _ _ .absent s').less (by simp)
    split
    · exact .step (.within (hdeclared _)) fun d s' => .look .atForKeyword fun _ _ => .ite
        (fun _ => hr.forEach _ _ d s') fun _ => hr.forLoop _ _ d s'
    · refine .look (.atWord _) fun _ _ => .look (.atWord _) fun _ _ =>
        .step (.within hr.expressionRule) fun e s' => .look .atForKeyword fun _ _ => .ite
          (fun _ => ?_) fun _ => hr.forLoop _ _ e s'
      exact .bind ((spends_targets.1 e s').frame _) fun target _ => .look (.atWord _) fun _ _ =>
        .skip (.flawIf _) fun _ _ => .skip (.flawIf _) fun _ s' => hr.forEach _ _ target s'

/-! ## Jumps -/

theorem Costs.jumpRule {label : Label} (hlabel : label.opens = false) :
    Costs n (jumpRule label) (Tree.opensAt n) := fun _ =>
  .start <| .skip .advanceKeyword fun _ _ => .look .canEnd fun _ _ => .ite
    (fun _ => .given <| .skip .endStatement fun _ _ => .node hlabel (Nat.zero_le _))
    fun _ => .step .labelName fun target _ => .given <| .skip .endStatement fun _ _ =>
      .node hlabel (by simp)

theorem Rules.Spend.returnRule (hr : r.Spend n) : Costs n (returnRule r) (Tree.opensAt n) :=
  fun _ => .start <| .context <| .skip (.flawIf _) fun _ _ => .skip .advanceKeyword fun _ _ =>
    .look .canEnd fun _ _ => .ite
      (fun _ => .given <| .skip .endStatement fun _ _ => .node rfl (Nat.zero_le _))
      fun _ => .step (.within hr.expressionRule) fun e _ => .given <| .skip .endStatement fun _ _ =>
        .node rfl (by simp)

theorem Rules.Spend.throwRule (hr : r.Spend n) : Costs n (throwRule r) (Tree.opensAt n) :=
  fun _ => .start <| .skip .advanceKeyword fun _ _ => .token <| .skip (.flawIf _) fun _ _ =>
    .step hr.expressionRule fun e _ => .skip .endStatement fun _ _ => .node rfl (by simp)

/-! ## Branches and handlers -/

theorem Looks.atCaseEnd : Looks atCaseEnd := by
  refine .bind .kind fun k => ?_
  split <;> exact .pure _

theorem Rules.Spend.caseRule (hr : r.Spend n) : Costs n (caseRule r) (Tree.opensAt n) := by
  have hitems : Costs n (itemsUntil atCaseEnd (r.statement .list) r.bound) (Tree.allOpenAt n) :=
    .itemsUntil .atCaseEnd (hr.statement _) _
  have hrest (test : Tree) ( begin : Nat) (s : State) : Spends n s (test.opensAt n) (do
      expectPunct ":"
      let body ← itemsUntil atCaseEnd (r.statement .list) r.bound
      node .switchCase begin (test :: body)) (Tree.opensAt n) :=
    .skip (.expectPunct _) fun _ _ => .step hitems fun body _ => .node rfl (by simp; omega)
  intro s
  refine .start <| .skip (.eatWord _) fun _ s => .ite (fun _ => ?_) fun _ => ?_
  · exact .given ((hrest .absent _ s).less (by simp))
  · exact .skip (.expectWord _) fun _ _ => .step hr.expressionRule fun test s => hrest test _ s

theorem Rules.Spend.switchRule (hr : r.Spend n) : Costs n (switchRule r) (Tree.opensAt n) := by
  have hcases : Costs n (itemsUntil (do return (← atPunct "\x7d") || (← atEnd))
      (Parser.caseRule r) r.bound) (Tree.allOpenAt n) := .itemsUntil .atClose hr.caseRule _
  exact fun _ => .start <| .skip .advanceKeyword fun _ _ => .step hr.parenTest fun subject _ =>
    .skip (.expectPunct _) fun _ _ => .step hcases fun cases _ => .skip (.expectPunct _) fun _ _ =>
      .node rfl (by simp; omega)

theorem Rules.Spend.catchRule (hr : r.Spend n) : Costs n (catchRule r) (Tree.opensAt n) := by
  intro s
  have hrest (p : Tree) (s' : State) : Spends n s' (p.opensAt n + oneAt n s.token.start) (do
      let body ← Parser.blockRule r
      node .catchClause s.token.start [p, body]) (Tree.opensAt n) :=
    .step hr.blockRule fun body _ => .of_due (.opener rfl (by simp; omega))
  refine .start <| .bind (.expectWord _) fun _ _ => .skip (.eatPunct _) fun _ s => .ite (fun _ => ?_)
    fun _ => ?_
  · exact .step hr.patternRule fun p _ => .skip (.expectPunct _) fun _ s => .given (hrest p s)
  · exact .given ((hrest .absent s).less (by simp))

theorem Rules.Spend.tryRule (hr : r.Spend n) : Costs n (tryRule r) (Tree.opensAt n) := by
  intro s
  have hrest (block handler : Tree) ( begin : Nat) (s : State) :
      Spends n s (handler.opensAt n + block.opensAt n) (do
        let final ← if ← eatWord "finally" then Parser.blockRule r else pure .absent
        flawIf (handler.isAbsent && final.isAbsent)
        node .tryStatement begin [block, handler, final]) (Tree.opensAt n) :=
    .skip (.eatWord _) fun _ _ => .ite
      (fun _ => .step hr.blockRule fun final _ => .skip (.flawIf _) fun _ _ =>
        .node rfl (by simp; omega))
      fun _ => .given <| .skip (.flawIf _) fun _ _ => .node rfl (by simp; omega)
  refine .start <| .skip .advanceKeyword fun _ _ => .step hr.blockRule fun block s =>
    .look (.atWord _) fun _ _ => .ite (fun _ => ?_) fun _ => ?_
  · exact .step hr.catchRule fun handler s => hrest block handler _ s
  · exact .given ((hrest block .absent _ s).less (by simp))

/-! ## Functions and classes as statements -/

/-- Behind a word that may be there: either it was eaten, and its token is in hand, or the state is
the same. -/
theorem Spends.eatWord_cases {β : Type} {s : State} {held : Nat} {text : String}
    {q : Bool → Parser β} {out : β → Nat}
    (heaten : ∀ s', Spends n s' (oneAt n s.token.start + held) (q true) out)
    (hother : Spends n s held (q false) out) : Spends n s held (Parser.eatWord text >>= q) out := by
  intro hs b s' h
  obtain ⟨ate, s₁, hate, hb⟩ := exists_of_bind h
  cases ate with
  | true =>
    obtain ⟨hs₁, hcredit⟩ := Spends.eatWord text hs true s₁ hate
    obtain ⟨hs', hcredit'⟩ := heaten s₁ hs₁ b s' hb
    exact ⟨hs', Nat.le_trans hcredit' hcredit⟩
  | false =>
    obtain ⟨here, s₂, hhere, hrest⟩ := exists_of_bind hate
    obtain rfl := Looks.atWord text s here s₂ hhere
    cases here with
    | true =>
      obtain ⟨_, _, _, hreturn⟩ := exists_of_bind hrest
      cases hreturn
    | false =>
      cases hrest
      exact hother hs b s' hb

theorem Rules.Spend.functionStatement (hr : r.Spend n) (place : Place) :
    Costs n (functionStatement r place) (Tree.opensAt n) := by
  intro s
  -- The function starts at `async` if it is there, else at `function` itself.
  refine .start <| .eatWord_cases (fun s' => ?_) ?_
  · exact .bind (.of_due (hr.functionFrom .declaration .required true (by omega))) fun f _ =>
      .skip (.flawIf _) fun _ _ => .pure (Nat.le_refl _)
  · exact .bind (.of_due (hr.functionFrom .declaration .required false (by omega))) fun f _ =>
      .skip (.flawIf _) fun _ _ => .pure (Nat.le_refl _)

theorem Rules.Spend.classStatement (hr : r.Spend n) (place : Place) ( begin : Nat)
    (decorated : List Tree) (s : State) :
    Spends n s (Tree.allOpenAt n decorated) (classStatement r place begin decorated)
      (Tree.opensAt n) :=
  .bind (.of_due (hr.classFrom .declaration begin decorated s)) fun _ _ =>
    .skip (.flawIf _) fun _ _ => .pure (Nat.le_refl _)

theorem Rules.Spend.exportedDeclaration (hr : r.Spend n) :
    Costs n (exportedDeclaration r) (Tree.opensAt n) := by
  intro s
  refine .kind ?_
  split
  · exact hr.variableStatement _ _ s
  · exact hr.variableStatement _ _ s
  · exact hr.variableStatement _ _ s
  · exact hr.functionStatement _ s
  · exact .look .atAsyncFunction fun _ _ => .ite (fun _ => hr.functionStatement _ s)
      fun _ => .unexpected

theorem Rules.Spend.decoratedStatement (hr : r.Spend n) (place : Place) :
    Costs n (decoratedStatement r place) (Tree.opensAt n) := fun _ =>
  .start <| .step hr.decorators fun decorated s => .look (.atWord _) fun _ _ => .ite
    (fun _ => hr.exportStatement decorated hr.exportedDeclaration s)
    fun _ => hr.classStatement place _ decorated s

/-! ## Hints before statements -/

theorem allOpenAt_markQuietConstant (ds : List Tree) :
    Tree.allOpenAt n (markQuietConstant ds) = Tree.allOpenAt n ds := by
  unfold markQuietConstant
  split
  · simp [Tree.opensAt_parts n (l := .declarator) rfl rfl, opensAt_markQuiet]
  · rfl

theorem opensAt_markQuietDeclaration (t : Tree) :
    (markQuietDeclaration t).opensAt n = t.opensAt n := by
  unfold markQuietDeclaration
  split
  · simp [Tree.opensAt_node, Label.isImport, Label.opens, Label.scopeKind?]
  · rw [Tree.opensAt_parts n rfl rfl, Tree.opensAt_parts n rfl rfl, allOpenAt_markQuietConstant]
  · rfl

theorem opensAt_markQuietStatement (t : Tree) :
    (markQuietStatement t).opensAt n = t.opensAt n := by
  unfold markQuietStatement
  split
  · simp [Tree.opensAt_parts n (l := .exportDeclaration) rfl rfl, opensAt_markQuietDeclaration]
  · simp [Tree.opensAt_parts n (l := .exportDefault) rfl rfl, opensAt_markQuiet]
  · exact opensAt_markQuietDeclaration t

/-! ## All statements -/

theorem Rules.Spend.plainStatement (hr : r.Spend n) (place : Place) :
    Costs n (plainStatement r place) (Tree.opensAt n) := by
  intro s
  refine .start <| .kind ?_
  split
  · exact hr.blockRule s
  · exact .skip .advance fun _ _ => .node rfl (Nat.zero_le _)
  · exact hr.decoratedStatement place s
  · rename_i w hw
    have hmark : s.token.kind.isMark := by
      rw [hw]
      rfl
    split
    · exact hr.ifRule s
    · exact hr.doWhileRule s
    · exact hr.whileRule s
    · exact hr.forRule hmark
    · exact Costs.jumpRule rfl s
    · exact Costs.jumpRule rfl s
    · exact hr.withRule s
    · exact hr.switchRule s
    · exact hr.throwRule s
    · exact hr.tryRule s
    · exact .skip .advanceKeyword fun _ _ => .skip .endStatement fun _ _ => .node rfl (Nat.zero_le _)
    · exact hr.classStatement place _ [] s
    · exact hr.exportStatement [] hr.exportedDeclaration s
    · exact hr.returnRule s
    · exact hr.variableStatement _ place s
    · exact hr.variableStatement _ place s
    · exact hr.functionStatement place s
    · exact .token <| .ite (fun _ => hr.expressionStatement s) fun _ => hr.letStatement place s
    · exact .look .atAsyncFunction fun _ _ => .ite (fun _ => hr.functionStatement place s)
        fun _ => hr.expressionStatement s
    · refine .look .following fun t _ => ?_
      split
      · exact hr.expressionStatement s
      · exact hr.expressionStatement s
      · exact Costs.importStatement r s
    · exact .look (.atUsing _) fun _ _ => .ite (fun _ => hr.variableStatement _ place s)
        fun _ => hr.expressionStatement s
    · exact .look (.atAwaitUsing _) fun _ _ => .ite (fun _ => hr.variableStatement _ place s)
        fun _ => hr.expressionStatement s
    · exact hr.expressionStatement s
  · exact hr.expressionStatement s

theorem Rules.Spend.statementRule (hr : r.Spend n) (place : Place) :
    Costs n (statementRule r place) (Tree.opensAt n) := fun _ =>
  .token <| .step (hr.plainStatement place) fun t _ => .pure <| by
    split
    · exact (opensAt_markQuietStatement t).le
    · exact Nat.le_refl _

end

/-! ## Scripts -/

/-- What is nested spends like what it is nested in, however deep. -/
theorem spend_rules (n bound : Nat) : ∀ depth, (rules bound depth).Spend n
  | 0 => {
      expression := fun _ => .throw _
      assignment := fun _ => .throw _
      binary := fun _ _ => .throw _
      unary := fun _ => .throw _
      operand := fun _ => .throw _
      member := fun _ => .throw _
      pattern := fun _ => .throw _
      statement := fun _ _ => .throw _ }
  | depth + 1 =>
    have hr := spend_rules n bound depth
    { expression := hr.expressionRule
      assignment := hr.assignmentRule
      binary := fun level s => (hr.binaryRule level s).mono (Nat.le_refl _)
        (Tree.opensAt_le_dueAt n s.token.start)
      unary := fun s => (hr.unaryRule s).mono (Nat.le_refl _)
        (Tree.opensAt_le_dueAt n s.token.start)
      operand := fun s => (hr.operandRule s).mono (Nat.le_refl _)
        (Tree.opensAt_le_dueAt n s.token.start)
      member := fun s => (hr.memberRule s).mono (Nat.le_refl _)
        fun x => Tree.opensAt_le_dueAt n s.token.start x.1
      pattern := hr.patternRule
      statement := hr.statementRule }

theorem ready_startState (source : List Char) : (startState source).Ready :=
  ⟨rfl, Nat.zero_le _, fun h => nomatch h⟩

/-- A whole script spends the one that the start of its text has credit for. -/
theorem Rules.Spend.programRule {n : Nat} {r : Rules} (hr : r.Spend n) (source : List Char) :
    Spends n (startState source) 0 (programRule r) fun t => Tree.allOpenAt n t.children := by
  have hrest (opening : List Tree) (hopening : Tree.allOpenAt n opening = 0) (s : State) :
      Spends n s 0 (do
        advance
        let items ← Parser.statementsUntil r atEnd r.bound true
        let stop := (← token).start
        return Tree.node .program ⟨0, stop⟩ (opening ++ items)) fun t =>
          Tree.allOpenAt n t.children :=
    .skip .advance fun _ _ => .step (hr.statementsUntil .atEnd _ _) fun items _ => .token <| .pure <| by
      rw [Tree.children, Tree.allOpenAt_append, hopening]
      omega
  refine .get ?_
  split
  · -- The line that names an interpreter is passed over before the first token.
    exact .jump (fun _ => ⟨⟨rfl, Nat.zero_le _, fun h => nomatch h⟩, Nat.le_refl _⟩) <|
      .given (hrest [_] (by simp [Tree.opensAt_leaf n (l := .hashbang _) rfl]) _)
  · exact .given (hrest [] rfl _)

end Parser

open Reactive.Script.Parser

/-- The parts of a script open at most one scope at an offset. -/
theorem allOpenAt_programTree_le (n : Nat) (source : List Char) :
    Tree.allOpenAt n (programTree source).tree.children ≤ 1 := by
  unfold programTree parseModule
  cases hrun : programRule (rulesFor source) (startState source) with
  | error e s => exact Nat.zero_le 1
  | ok t s =>
    have hrules : (rulesFor source).Spend n := spend_rules n _ _
    obtain ⟨-, hcredit⟩ := hrules.programRule source (ready_startState source) t s hrun
    have hstart : (startState source).credit n = 1 := rfl
    rw [hstart] at hcredit
    exact Nat.le_trans (Nat.le_add_right _ _) hcredit

/-- Among statements of a script that was read, no two nodes that open scopes have the same span:
they do not even start at the same place. -/
theorem nodup_openSpans_of_sublist {source : List Char} {statements : List Tree}
    (h : statements.Sublist (programTree source).tree.children) :
    (scriptTree statements).openSpans.Nodup := by
  refine .of_map Span.start (List.nodup_iff_count_le_one.mpr fun n => ?_)
  calc (scriptTree statements).opensAt n
    _ = Tree.allOpenAt n statements := Tree.opensAt_parts n rfl rfl _ _
    _ ≤ Tree.allOpenAt n (programTree source).tree.children :=
      (h.map (Tree.opensAt n)).sum_le_sum fun _ _ => Nat.zero_le _
    _ ≤ 1 := allOpenAt_programTree_le n source

end Reactive.Script
