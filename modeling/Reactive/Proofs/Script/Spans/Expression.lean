/-
  What expressions spend.

  A variable is what its tokens give and nothing else, so the token that it is read from stays in
  hand until it is known whether an arrow follows. The readers of operands say so: what their result
  is due includes that token.
-/
import Reactive.Proofs.Script.Spans.Class
import Reactive.Proofs.Script.Spans.Target

namespace Reactive.Script.Parser

section

variable {n : Nat} {r : Rules}

/-! ## Literals -/

theorem Costs.continueTemplate : Costs n continueTemplate fun _ => 0 := by
  intro s
  have hpiece (s : State) : Spends n s 0 (do
      let s ← get
      let scan := scanTemplatePiece (s.here.skip 1)
      set { s with
        token := ⟨scan.kind, s.token.start, scan.next.offset, s.token.newlineBefore, false, []⟩
        next := scan.next
        flaws := if scan.flawed then s.token.start :: s.flaws else s.flaws }) fun _ => 0 := by
    rintro hs _ _ ⟨rfl, rfl⟩
    have hpiece := Unmarked.of_skip 1 (unmarked_scanTemplatePiece (s.here.skip 1))
    exact ⟨⟨hs.here, hs.here ▸ hpiece.offset, fun h => absurd h (by simp [hpiece.kind])⟩,
      Nat.le_refl _⟩
  exact .look (.atPunct _) fun _ _ =>
    .ite (fun _ => hpiece s) fun _ => .stopped

theorem Rules.Spend.templateParts (hr : r.Spend n) (tagged : Bool) :
    ∀ bound, Costs n (templateParts r tagged bound)
      fun x => Tree.allOpenAt n x.1 + Tree.allOpenAt n x.2
  | 0 => fun _ => .throw _
  | bound + 1 => fun s => by
    refine .token ?_
    split
    · refine .skip (.flawIf _) fun _ _ => .skip .advance fun _ _ => .ite (fun _ => ?_) fun _ => ?_
      · exact .pure (by simp [Tree.opensAt_leaf n (l := .templateText _) rfl])
      · exact .step (.within hr.expression) fun hole _ => .skip .continueTemplate fun _ _ =>
          .step (hr.templateParts tagged bound) fun x _ =>
            .pure (by simp [Tree.opensAt_leaf n (l := .templateText _) rfl]; omega)
    · exact .unexpected

theorem Rules.Spend.templateRule (hr : r.Spend n) (tagged : Bool) {place : Nat} :
    Costs n (templateRule r tagged) (Tree.dueAt n place) := fun _ =>
  .start <| .step (hr.templateParts tagged _) fun ⟨pieces, holes⟩ _ =>
    .nodeDue rfl rfl (by simp)

theorem Rules.Spend.spreadRule (hr : r.Spend n) : Costs n (spreadRule r) (Tree.opensAt n) :=
  fun _ => .start <| .skip (.expectPunct _) fun _ _ => .step hr.assignment fun _ _ =>
    .node rfl (by simp)

theorem Costs.noteTrailing ( begin : Nat) (trailing : Bool) :
    Costs n (noteTrailing begin trailing) fun _ => 0 := by
  intro s
  unfold Parser.noteTrailing
  split
  · rintro hs _ _ ⟨rfl, rfl⟩
    exact ⟨⟨hs.here, hs.next, hs.mark⟩, Nat.le_refl _⟩
  · exact .pure (Nat.le_refl _)

/-- An argument or an element. -/
theorem Rules.Spend.spreadOrItem (hr : r.Spend n) : Costs n (do
    if ← atPunct "..." then Parser.spreadRule r else r.assignment) (Tree.opensAt n) := fun s =>
  .look (.atPunct _) fun _ _ => .ite (fun _ => hr.spreadRule s) fun _ => hr.assignment s

theorem Rules.Spend.arrayRule (hr : r.Spend n) {place : Nat} :
    Costs n (arrayRule r) (Tree.dueAt n place) := by
  have hitem : Costs n (do
      if ← atPunct "," then return Tree.absent
      else if ← atPunct "..." then Parser.spreadRule r
      else r.assignment) (Tree.opensAt n) := fun s =>
    .look (.atPunct _) fun _ _ => .ite (fun _ => .pure (by simp)) fun _ => hr.spreadOrItem s
  exact fun _ => .start <| .skip (.expectPunct _) fun _ _ =>
    .step (.within (.commaList hitem _ _)) fun _ _ =>
      .skip (.expectPunct _) fun _ _ => .skip (.noteTrailing _ _) fun _ _ =>
        .nodeDue rfl rfl (Nat.le_refl _)

/-- A default that waits takes what it counts along. -/
theorem Spends.noteDefault {s : State} {held : Nat} ( begin : Nat) (value : Tree) :
    Spends n s (value.opensAt n + held)
      (modify fun s => { s with defaults := (begin, value) :: s.defaults }) fun _ => held := by
  rintro hs _ _ ⟨rfl, rfl⟩
  refine ⟨⟨hs.here, hs.next, hs.mark⟩, ?_⟩
  simp only [State.credit, List.map_cons, Tree.allOpenAt_cons]
  omega

theorem Rules.Spend.plainProperty (hr : r.Spend n) ( begin : Nat) :
    Costs n (plainProperty r begin) (Tree.opensAt n) := by
  have hnode (key : Tree) (w : String) (s : State) : Spends n s (key.opensAt n + 0)
      (node (.property .init false true false) begin [key, .node (.identifier w) key.span []])
      (Tree.opensAt n) :=
    .node rfl (by simp [Tree.opensAt_leaf n (l := .identifier w) rfl])
  intro s
  refine .look (.atModifier _ _) fun async _ => ?_
  dsimp only
  split
  case' isTrue => refine .skip .advanceKeyword fun _ s => ?_
  all_goals
    refine .skip (.eatPunct _) fun generator _ => .context <| .kind <|
      .step (hr.propertyName _) fun ⟨key, computed⟩ _ => .look (.atPunct _) fun _ _ =>
        .ite (fun _ => ?_) fun _ => .look (.atPunct _) fun _ _ => .ite (fun _ => ?_) fun _ => ?_
    · exact .step (hr.methodFunction _ _) fun f _ => .node rfl (by simp; omega)
    · dsimp only
      split
      · refine .skip (.eatPunct _) fun _ s => .ite (fun _ => ?_) fun _ => hnode key _ s
        exact .step hr.assignment fun value _ => .bind (.noteDefault begin value) fun _ s =>
          hnode key _ s
      · exact .unexpected
    · exact .skip (.expectPunct _) fun _ _ => .step hr.assignment fun value _ =>
        .node rfl (by simp; omega)

theorem Rules.Spend.propertyRule (hr : r.Spend n) :
    Costs n (propertyRule r) (Tree.opensAt n) := by
  intro s
  refine .start <| .look (.atPunct _) fun _ _ => .ite (fun _ => hr.spreadRule s) fun _ => ?_
  refine .look (.atModifier _ _) fun _ _ => .ite (fun _ => ?_) fun _ => ?_
  · exact .skip .advanceKeyword fun _ _ => .step (hr.propertyName _) fun ⟨key, computed⟩ _ =>
      .step (hr.methodFunction _ _) fun f _ => .skip (.checkGetter f) fun _ _ =>
        .node rfl (by simp; omega)
  refine .look (.atModifier _ _) fun _ _ => .ite (fun _ => ?_) fun _ => hr.plainProperty _ s
  exact .skip .advanceKeyword fun _ _ => .step (hr.propertyName _) fun ⟨key, computed⟩ _ =>
    .step (hr.methodFunction _ _) fun f _ => .skip (.checkSetter f) fun _ _ =>
      .node rfl (by simp; omega)

theorem Rules.Spend.objectRule (hr : r.Spend n) {place : Nat} :
    Costs n (objectRule r) (Tree.dueAt n place) := fun _ =>
  .start <| .skip (.expectPunct _) fun _ _ =>
    .step (.within (.commaList hr.propertyRule _ _)) fun _ _ =>
      .skip (.expectPunct _) fun _ _ => .skip (.noteTrailing _ _) fun _ _ =>
        .nodeDue rfl rfl (Nat.le_refl _)

/-! ## Primary expressions -/

/-- A mark on a function changes nothing else. -/
theorem opensAt_markWrapped (t : Tree) : (markWrapped t).opensAt n = t.opensAt n := by
  unfold markWrapped
  split <;> simp [Tree.opensAt_node, Label.isImport, Label.opens, Label.scopeKind?]

theorem Rules.Spend.parenRule (hr : r.Spend n) {place : Nat} :
    Costs n (parenRule r) (Tree.dueAt n place) := by
  intro s
  refine .start <| .skip (.expectPunct _) fun _ _ => .start <|
    .step (.within (.commaList hr.assignment _ _)) fun ⟨items, trailing⟩ s => ?_
  refine .ite (fun _ => .stopped) fun _ => ?_
  dsimp only
  split
  · exact .unexpected
  · exact .skip (.expectPunct _) fun _ _ => .nodeDue rfl rfl (by simp [opensAt_markWrapped])
  · exact .bind (.node rfl (Nat.le_refl _)) fun e _ => .skip (.expectPunct _) fun _ _ =>
      .nodeDue rfl rfl (by simp)

/-- A slash that starts a regular expression is passed with all of it. -/
theorem Costs.regexRule {place : Nat} : Costs n regexRule (Tree.dueAt n place) := by
  rintro s hs t s' h
  -- The text is scanned again from the slash on; the next token is read behind what that gives.
  obtain ⟨s₁, hs₁, hnext, hdefaults⟩ : ∃ s₁ : State, Parser.advance s₁ = .ok () s'
      ∧ s₁.next = (scanRegex s.here).next ∧ s₁.defaults = s.defaults := by
    obtain ⟨rfl, rfl⟩ := h
    exact ⟨_, rfl, rfl, rfl⟩
  obtain ⟨l, span, hl, hl', rfl⟩ : ∃ l span, l.opens = false ∧ l.isVariable = false
      ∧ t = .node l span [] := by
    obtain ⟨rfl, rfl⟩ := h
    exact ⟨_, _, rfl, rfl, rfl⟩
  obtain ⟨hs', hle, hdefaults'⟩ := State.Ready.advance s₁ hs₁
  have hstart : s.token.start ≤ s'.token.start := by
    rw [← hs.here]
    exact Nat.le_trans (scanRegex_offset s.here) (hnext ▸ hle)
  refine ⟨hs', ?_⟩
  rw [Tree.dueAt_node n hl', Tree.opensAt_leaf n hl]
  simp only [State.credit, hdefaults', hdefaults]
  split <;> split <;> omega

theorem Rules.Spend.importRule (hr : r.Spend n) {place : Nat} :
    Costs n (importRule r) (Tree.dueAt n place) := by
  intro s
  refine .start <| .token <| .skip .advanceKeyword fun _ _ => ?_
  extract_lets arguments
  have harguments (phase : Option Phase) (s : State) :
      Spends n s 0 (arguments phase) (Tree.dueAt n place) := by
    refine .skip (.expectPunct _) fun _ _ => .step (.within hr.assignment) fun source _ =>
      .skip (.eatPunct _) fun _ _ => .ite (fun _ => ?_) fun _ => ?_
    · refine .look (.atPunct _) fun _ _ => .ite (fun _ => ?_) fun _ => ?_
      · exact .given <| .skip (.expectPunct _) fun _ _ => .nodeDue rfl rfl (by simp)
      · exact .step (.within hr.assignment) fun o _ => .skip (.eatPunct _) fun _ _ =>
          .given <| .skip (.expectPunct _) fun _ _ => .nodeDue rfl rfl (by simp; omega)
    · exact .given <| .skip (.expectPunct _) fun _ _ => .nodeDue rfl rfl (by simp)
  refine .skip (.eatPunct _) fun _ _ => .ite (fun _ => .kind ?_) fun _ => harguments _ _
  split
  · exact .step .anyWord fun _ _ => .nodeDue rfl rfl (by simp [Tree.opensAt_leaf n (l := .word _) rfl])
  · exact .skip .advance fun _ _ => harguments _ _
  · exact .skip .advance fun _ _ => harguments _ _
  · exact .unexpected

/-- A variable is due the token that it is read from. -/
theorem Spends.identifierRule (s : State) :
    Spends n s 0 identifierRule (Tree.dueAt n s.token.start) := by
  refine .token ?_
  split
  · rename_i w hw
    refine .context <| .ite (fun _ => ?_) fun _ => .unexpected
    refine .bind (.advance_mark (by rw [hw]; rfl)) fun _ _ => .pure ?_
    simp [Tree.dueAt, Label.isVariable, Tree.opensAt_leaf n (l := .identifier w) rfl]
  · exact .unexpected

theorem Rules.Spend.newRule (hr : r.Spend n) {place : Nat} :
    Costs n (newRule r) (Tree.dueAt n place) := by
  intro s
  have hend (callee : Tree) (optional : Bool) (arguments : List Tree) (s' : State) :
      Spends n s' (Tree.allOpenAt n arguments + callee.opensAt n) (do
        flawIf optional
        node (.new false) s.token.start (callee :: arguments)) (Tree.dueAt n place) :=
    .skip (.flawIf _) fun _ _ => .nodeDue rfl rfl (by simp; omega)
  refine .start <| .token <| .skip .advanceKeyword fun _ _ => .skip (.eatPunct _) fun _ _ =>
    .ite (fun _ => ?_) fun _ => ?_
  · refine .look (.atWord _) fun _ _ => .ite (fun _ => ?_) fun _ => .unexpected
    exact .step .anyWord fun _ _ =>
      .nodeDue rfl rfl (by simp [Tree.opensAt_leaf n (l := .word _) rfl])
  · refine .step hr.member fun ⟨callee, optional⟩ _ => .look (.atPunct _) fun _ _ =>
      .ite (fun _ => .stopped) fun _ => .skip (.eatPunct _) fun _ s' =>
        .ite (fun _ => ?_) fun _ => ?_
    · refine .step (.within (.commaList hr.spreadOrItem _ _)) fun ⟨arguments, _⟩ _ =>
        .skip (.expectPunct _) fun _ s' => .given ?_
      dsimp only
      split
      · exact .skip .flaw fun _ s' => hend callee optional arguments s'
      · exact hend callee optional arguments s'
    · refine .given ?_
      dsimp only
      split
      · exact .skip .flaw fun _ s' => (hend callee optional [] s').less (by simp)
      · exact (hend callee optional [] s').less (by simp)

theorem Costs.leaf {l : Label} (hl : l.opens = false) (hl' : l.isVariable = false) {place : Nat} :
    Costs n (leaf l) (Tree.dueAt n place) := fun _ =>
  .token <| .skip .advance fun _ _ =>
    .pure (by rw [Tree.dueAt_node n hl', Tree.opensAt_leaf n hl])

theorem Costs.keywordLeaf {l : Label} (hl : l.opens = false) (hl' : l.isVariable = false)
    {place : Nat} : Costs n (keywordLeaf l) (Tree.dueAt n place) := fun _ =>
  .token <| .skip .advanceKeyword fun _ _ =>
    .pure (by rw [Tree.dueAt_node n hl', Tree.opensAt_leaf n hl])

theorem Costs.superRule {place : Nat} : Costs n superRule (Tree.dueAt n place) := by
  intro s
  have hleaf : Costs n (Parser.keywordLeaf .super) (Tree.dueAt n place) := .keywordLeaf rfl rfl
  refine .step hleaf fun t _ => .kind ?_
  split
  · exact .pure (Nat.le_refl _)
  · exact .pure (Nat.le_refl _)
  · exact .pure (Nat.le_refl _)
  · exact .skip .flaw fun _ _ => .pure (Nat.le_refl _)

/-- A primary expression is due the token that it starts with if it is a variable. -/
theorem Rules.Spend.primaryRule (hr : r.Spend n) (s : State) :
    Spends n s 0 (primaryRule r) (Tree.dueAt n s.token.start) := by
  refine .start <| .kind ?_
  split
  · exact Costs.leaf rfl rfl s
  · exact Costs.leaf rfl rfl s
  · exact Costs.leaf rfl rfl s
  · exact hr.templateRule false s
  · exact hr.arrayRule s
  · exact hr.objectRule s
  · exact hr.parenRule s
  · exact Costs.regexRule s
  · exact Costs.regexRule s
  · exact .step hr.decorators fun marks s => hr.classFrom _ _ marks s
  · rename_i w hw
    have hmark : s.token.kind.isMark := by rw [hw]; rfl
    split
    · exact hr.functionFrom _ _ _ (Nat.le_refl _)
    · exact hr.classFrom _ _ [] s
    · exact Costs.keywordLeaf rfl rfl s
    · exact Costs.keywordLeaf rfl rfl s
    · exact Costs.keywordLeaf rfl rfl s
    · exact Costs.keywordLeaf rfl rfl s
    · exact hr.newRule s
    · exact Costs.superRule s
    · exact hr.importRule s
    · refine .look .following fun t _ => .ite (fun _ => ?_) fun _ => Spends.identifierRule s
      -- The function starts at `async`, which is passed before `function` is read.
      exact .bind (.advanceKeyword_mark hmark) fun _ _ => hr.functionFrom _ _ _ (by omega)
    · exact Spends.identifierRule s
  · exact .unexpected

/-! ## Member steps and calls -/

theorem Spends.memberStep (object : Tree) ( begin : Nat) (optional : Bool) {place : Nat} (s : State) :
    Spends n s (object.opensAt n) (memberStep object begin optional) (Tree.dueAt n place) := by
  refine .kind ?_
  split
  · exact .step .privateWord fun p _ => .nodeDue rfl rfl (by simp; omega)
  · exact .step .anyWord fun p _ => .nodeDue rfl rfl (by simp; omega)

theorem Rules.Spend.indexStep (hr : r.Spend n) (object : Tree) ( begin : Nat) (optional : Bool)
    {place : Nat} (s : State) :
    Spends n s (object.opensAt n) (indexStep r object begin optional) (Tree.dueAt n place) :=
  .skip (.expectPunct _) fun _ _ => .step (.within hr.expression) fun i _ =>
    .skip (.expectPunct _) fun _ _ => .nodeDue rfl rfl (by simp; omega)

/-- Behind a variable, steps take the token of the variable along if there is none of them. -/
theorem Rules.Spend.memberSteps (hr : r.Spend n) ( begin : Nat) :
    ∀ bound object optional s, Spends n s (object.dueAt n begin)
      (memberSteps r begin bound object optional) fun x => x.1.dueAt n begin
  | 0, _, _, _ => .throw _
  | bound + 1, object, optional, s => by
    have hobject := Tree.opensAt_le_dueAt n begin object
    have hquote : Costs n (Parser.templateRule r true) (Tree.opensAt n) :=
      fun s => (hr.templateRule true s).of_due
    have hlater := hr.memberSteps begin bound
    -- A step makes a node that is no variable, so it needs only what the object counts.
    refine .kind ?_
    split
    · exact .skip .advance fun _ s =>
        .bind (.less hobject (.memberStep object begin false s)) fun t s => hlater t optional s
    · refine .context <| .ite (fun _ => .pure (Nat.le_refl _)) fun _ => ?_
      exact .bind (.less hobject (hr.indexStep object begin false s)) fun t s => hlater t optional s
    · refine .look .following fun t _ => ?_
      split
      · exact .pure (Nat.le_refl _)
      · exact .skip .advance fun _ s =>
          .bind (.less hobject (hr.indexStep object begin true s)) fun t s => hlater t true s
      · exact .skip .advance fun _ _ => .skip .flaw fun _ _ => .step hquote fun q _ =>
          .bind (.nodeDue rfl rfl (by simp; omega)) fun t s => hlater t true s
      · exact .skip .advance fun _ s =>
          .bind (.less hobject (.memberStep object begin true s)) fun t s => hlater t true s
    · exact .skip (.flawIf _) fun _ _ => .step hquote fun q _ =>
        .bind (.nodeDue rfl rfl (by simp; omega)) fun t s => hlater t optional s
    · exact .pure (Nat.le_refl _)

theorem Rules.Spend.memberRule (hr : r.Spend n) (s : State) :
    Spends n s 0 (memberRule r) fun x => x.1.dueAt n s.token.start :=
  .start <| .bind (hr.primaryRule s) fun e s => hr.memberSteps _ _ e false s

theorem Rules.Spend.callSteps (hr : r.Spend n) ( begin : Nat) :
    ∀ bound callee optional s, Spends n s (callee.dueAt n begin)
      (callSteps r begin bound callee optional) fun x => x.1.dueAt n begin
  | 0, _, _, _ => .throw _
  | bound + 1, callee, optional, s => by
    refine .bind (hr.memberSteps begin _ callee optional s) fun ⟨callee, optional⟩ _ =>
      .skip (.eatPunct _) fun question _ => .skip (.eatPunct _) fun _ _ =>
        .ite (fun _ => ?_) fun _ => ?_
    · have hcallee := Tree.opensAt_le_dueAt n begin callee
      exact .step (.within (.commaList hr.spreadOrItem _ _)) fun ⟨items, _⟩ _ =>
        .skip (.expectPunct _) fun _ _ =>
          .bind (.nodeDue rfl rfl (by simp [Tree.allOpenAt]; omega)) fun c s =>
            hr.callSteps begin bound c _ s
    · exact .ite (fun _ => .stopped) fun _ => .pure (Nat.le_refl _)

theorem Rules.Spend.operandRule (hr : r.Spend n) (s : State) :
    Spends n s 0 (operandRule r) (Tree.dueAt n s.token.start) := by
  refine .start <| .bind (hr.memberRule s) fun ⟨e, optional⟩ s₁ =>
    .bind (hr.callSteps _ _ e optional s₁) fun ⟨e, optional⟩ _ =>
      .ite (fun _ => ?_) fun _ => .pure (Nat.le_refl _)
  have he := Tree.opensAt_le_dueAt n s.token.start e
  exact .nodeDue rfl rfl (by simpa using he)

/-! ## Prefix and postfix operators -/

theorem Rules.Spend.updateRule (hr : r.Spend n) (s : State) :
    Spends n s 0 (updateRule r) (Tree.dueAt n s.token.start) := by
  refine .start <| .kind ?_
  split
  · exact .skip .advance fun _ _ => .step hr.unary fun t _ => .bind (.toSimpleTarget t _) fun t _ =>
      .nodeDue rfl rfl (by simp)
  · refine .bind (hr.operandRule s) fun e s₁ => .kind ?_
    split
    · refine .token <| .ite (fun _ => .pure (Nat.le_refl _)) fun _ => .skip .advance fun _ s₂ => ?_
      exact .bind (.less (Tree.opensAt_le_dueAt n _ e) (.toSimpleTarget e s₂)) fun t _ =>
        .nodeDue rfl rfl (by simp)
    · exact .pure (Nat.le_refl _)

theorem Looks.atAwait : Looks atAwait :=
  (Looks.atWord _).bind fun _ => .ite (.bind .context fun _ => .ite (.pure _)
    (.bind .following fun _ => .pure _)) (.pure _)

/-- A hint changes nothing else. -/
theorem opensAt_markPure (t : Tree) : (markPure t).opensAt n = t.opensAt n := by
  fun_induction markPure t <;> simp_all [Tree.opensAt_node, Label.isImport, Label.opens,
    Label.scopeKind?]

theorem dueAt_markPure (place : Nat) (t : Tree) :
    (markPure t).dueAt n place = t.dueAt n place := by
  have hlabel : (markPure t).label.isVariable = t.label.isVariable := by
    unfold markPure
    split <;> rfl
  rw [Tree.dueAt, Tree.dueAt, opensAt_markPure, hlabel]

theorem Spends.hinted {s : State} {p : Parser Tree} {out : Tree → Nat}
    (hout : ∀ t, out (markPure t) = out t) (hp : Spends n s 0 p out) :
    Spends n s 0 (hinted p) out := by
  refine .token <| .bind hp fun e _ => .pure ?_
  split
  · exact (hout e).le
  · exact Nat.le_refl _

theorem Rules.Spend.unaryRule (hr : r.Spend n) (s : State) :
    Spends n s 0 (unaryRule r) (Tree.dueAt n s.token.start) := by
  refine .start <| .kind ?_
  split
  · exact .skip .advanceKeyword fun _ s => .bind (.hinted opensAt_markPure (hr.unary s)) fun e _ =>
      .nodeDue rfl rfl (by simp)
  · refine .look .atAwait fun _ _ => .ite (fun _ => ?_) fun _ => hr.updateRule s
    exact .context <| .skip (.flawIf _) fun _ _ => .skip .advanceKeyword fun _ _ =>
      .step (.within hr.unary) fun e _ => .nodeDue rfl rfl (by simp)

/-! ## Binary operators -/

/-- Operators behind an operand. -/
theorem Rules.Spend.binarySteps (hr : r.Spend n) (level begin : Nat) :
    ∀ bound (operand : Operand) s, Spends n s (operand.tree.dueAt n begin)
      (binarySteps r level begin bound operand) (Tree.dueAt n begin)
  | 0, _, _ => .throw _
  | bound + 1, operand, s => by
    have hleft := Tree.opensAt_le_dueAt n begin operand.tree
    have hstop (s : State) : Spends n s (operand.tree.dueAt n begin) (pure operand.tree)
        (Tree.dueAt n begin) := .pure (Nat.le_refl _)
    refine .kind ?_
    dsimp only
    split
    · exact .token <| .ite (fun _ => hstop s) fun _ => .unexpected
    · exact .token <| .ite (fun _ => hstop s) fun _ => .unexpected
    · split
      · exact hstop s
      · refine .ite (fun _ => hstop s) fun _ => ?_
        refine .context <| .ite (fun _ => hstop s) fun _ => .skip .advanceKeyword fun _ _ =>
          .look (.atPunct _) fun opensParen _ => .step (hr.binary _) fun right _ => ?_
        -- Both kinds of operators make a node of the two sides.
        split
        all_goals
          exact .skip (.flawIf _) fun _ _ => .given <|
            .bind (.nodeDue rfl rfl (by simp; omega)) fun e s => hr.binarySteps level begin bound _ s

theorem Rules.Spend.binaryRule (hr : r.Spend n) (level : Nat) (s : State) :
    Spends n s 0 (binaryRule r level) (Tree.dueAt n s.token.start) := by
  refine .start <| .context <| .kind ?_
  split
  · refine .ite (fun _ => .stopped) fun _ => .step .privateWord fun p _ => .look (.atWord _) fun _ _ =>
      .ite (fun _ => ?_) fun _ => .stopped
    refine .skip .advanceKeyword fun _ _ => .step (hr.binary _) fun right _ => ?_
    dsimp only
    split
    · exact .stopped
    · exact .ite (fun _ => .stopped) fun _ => .bind (.nodeDue rfl rfl (by simp; omega)) fun e s =>
        hr.binarySteps _ _ _ ⟨e, _⟩ s
  · exact .look (.atPunct _) fun opensParen _ =>
      .bind (.hinted (dueAt_markPure _) (hr.unaryRule s)) fun e s => hr.binarySteps _ _ _ ⟨e, _⟩ s

/-! ## Arrows -/

theorem Rules.Spend.arrowBody (hr : r.Spend n) (async : Bool) :
    Costs n (arrowBody r async) fun x => x.1.opensAt n := by
  intro s
  refine .look (.atPunct _) fun _ _ => .ite (fun _ => ?_) fun _ => ?_
  · exact .step (.within hr.functionBody) fun body _ => .pure (Nat.le_refl _)
  · refine .step (.within hr.assignment) fun e _ => .pure ?_
    simp [Tree.opensAt_parts n (l := .body) rfl rfl,
      Tree.opensAt_parts n (l := .expressionStatement) rfl rfl]

/-- An arrow is made of its parameters, its body and the token that it starts with. -/
theorem Rules.Spend.arrowRest (hr : r.Spend n) ( begin : Nat) (async : Bool) (parameters : Tree)
    (s : State) : Spends n s (parameters.opensAt n + oneAt n begin)
      (arrowRest r begin async parameters) (Tree.opensAt n) :=
  .token <| .skip (.flawIf _) fun _ _ => .skip (.expectPunct _) fun _ _ =>
    .step (hr.arrowBody async) fun ⟨body, concise⟩ _ => .of_due (.opener rfl (by simp; omega))

theorem Rules.Spend.arrowParameters (hr : r.Spend n) (async : Bool) (s : State) :
    Spends n s 0 (arrowParameters r async) fun t => t.opensAt n + oneAt n s.token.start :=
  .within (hr.parametersRule _)

theorem Looks.guessArrow : Looks guessArrow := .lookahead _

/-- Going on from another state that was reached. -/
theorem Spends.jump {α : Type} {s s' : State} {held held' : Nat} {q : Unit → Parser α}
    {out : α → Nat} (h : s.Ready → s'.Ready ∧ held' + s'.credit n ≤ held + s.credit n)
    (hq : Spends n s' held' (q ()) out) : Spends n s held (set s' >>= q) out := by
  intro hs a s'' hrun
  obtain ⟨hs', hcredit⟩ := h hs
  obtain ⟨hs'', hcredit'⟩ := hq hs' a s'' hrun
  exact ⟨hs'', Nat.le_trans hcredit' hcredit⟩

/-- Arrow parameters, behind `async` if it is there, leave the token that the arrow starts with. -/
theorem Rules.Spend.asyncParameters (hr : r.Spend n) {β : Type} {s : State} {async : Bool}
    (hasync : async = true → s.token.kind.isMark) {q : Tree → Parser β} {out : β → Nat}
    (hq : ∀ ps s', Spends n s' (ps.opensAt n + oneAt n s.token.start) (q ps) out) :
    Spends n s 0 (do
      if async then advanceKeyword
      let ps ← Parser.arrowParameters r async
      q ps) out := by
  cases async with
  | true =>
    refine .bind (.advanceKeyword_mark (hasync rfl)) fun _ s₁ => ?_
    refine .bind (hr.arrowParameters true s₁).keep fun ps s' => .less ?_ (hq ps s')
    omega
  | false => exact .bind (hr.arrowParameters false s) hq

theorem Rules.Spend.parenArrow? (hr : r.Spend n) :
    Costs n (parenArrow? r) fun t => (t.getD .absent).opensAt n := by
  intro s
  refine .start <| .look (.atWord _) fun async hasync => ?_
  have hmark : async = true → s.token.kind.isMark := by
    rintro rfl
    exact isMark_of_atWord hasync
  have hnone {s : State} : Spends n s 0 (pure none) fun t : Option Tree =>
      (t.getD .absent).opensAt n := .pure (by simp)
  have harrow (ps : Tree) (s' : State) :
      Spends n s' (ps.opensAt n + oneAt n s.token.start) (do
        return some (← Parser.arrowRest r s.token.start async ps)) fun t =>
          (t.getD .absent).opensAt n :=
    .bind (hr.arrowRest _ async ps s') fun t _ => .pure (Nat.le_refl _)
  have hwhole : Spends n s 0 (do
      if async then advanceKeyword
      let ps ← Parser.arrowParameters r async
      Parser.arrowRest r s.token.start async ps) (Tree.opensAt n) :=
    hr.asyncParameters hmark fun ps s' => hr.arrowRest _ async ps s'
  have hattempt : Spends n s 0 (do
      if async then advanceKeyword
      let ps ← Parser.arrowParameters r async
      return (ps, ← atPunct "=>")) fun x => x.1.opensAt n + oneAt n s.token.start :=
    hr.asyncParameters hmark fun ps s' => .look (.atPunct _) fun _ _ => .pure (Nat.le_refl _)
  dsimp only
  refine .look (.atPunct _) fun _ _ => .ite (fun _ => .look (.lookahead _) fun guess _ => ?_)
    fun _ => .ite (fun _ => .look .guessArrow fun guess _ => ?_) fun _ => hnone
  all_goals
    split
    · exact hnone
    · exact .bind hwhole fun t _ => .pure (Nat.le_refl _)
    · refine .get <| .ite (fun _ => hnone) fun _ => ?_
      -- The state is that of the attempt if its parameters stand before an arrow, else the old one.
      split
      · rename_i ps s' hrun
        exact .jump (fun hs => hattempt hs _ _ hrun) (harrow ps s')
      · exact .jump (fun hs => ⟨⟨hs.here, hs.next, hs.mark⟩, Nat.le_refl _⟩) hnone
      · exact .jump (fun hs => ⟨⟨hs.here, hs.next, hs.mark⟩, Nat.le_refl _⟩) hnone

theorem opensAt_nameParameters (name : String) (s : Span) :
    (nameParameters name s).opensAt n = 0 := by
  simp [nameParameters, Tree.opensAt_node, Label.isImport, Label.opens, Label.scopeKind?]

theorem Rules.Spend.asyncNameArrow? (hr : r.Spend n) :
    Costs n (asyncNameArrow? r) fun t => (t.getD .absent).opensAt n := by
  intro s
  refine .look (.atWord _) fun async hasync => .ite (fun _ => .pure (by simp)) fun hasync' => ?_
  have hmark : s.token.kind.isMark := by
    cases async with
    | true => exact isMark_of_atWord hasync
    | false => exact absurd rfl hasync'
  refine .start <| .look (.lookahead _) fun fits _ => .ite (fun _ => .pure (by simp)) fun _ => ?_
  refine .bind (.advanceKeyword_mark hmark) fun _ s' => .token ?_
  split
  · rename_i w hw
    refine .skip .advance fun _ s' => ?_
    refine .bind (.less ?_ (hr.arrowRest s.token.start true (nameParameters w _) s')) fun t _ =>
      .pure (Nat.le_refl _)
    rw [opensAt_nameParameters]
    omega
  · exact .unexpected

/-! ## Assignment and comma -/

theorem Looks.atYield : Looks atYield :=
  (Looks.atWord _).bind fun _ => .ite (.bind .context fun _ => .ite (.pure _)
    (.bind .following fun _ => .pure _)) (.pure _)

theorem Rules.Spend.yieldRule (hr : r.Spend n) : Costs n (yieldRule r) (Tree.opensAt n) := by
  intro s
  refine .start <| .context <| .skip (.flawIf _) fun _ _ => .skip .advanceKeyword fun _ _ =>
    .within <| .token <| .ite (fun _ => .node rfl (by simp)) fun _ => ?_
  refine .skip (.eatPunct _) fun delegate s' => .kind ?_
  have hrest (bare : Bool) : Spends n s' 0 (do
      if bare && !delegate then node (.yield false) s.token.start [.absent]
      else
        let e ← r.assignment
        node (.yield delegate) s.token.start [e]) (Tree.opensAt n) :=
    .ite (fun _ => .node rfl (by simp)) fun _ => .step hr.assignment fun e _ => .node rfl (by simp)
  dsimp only
  split
  · exact .given (hrest _)
  · exact .given (hrest _)
  · exact .given (hrest _)
  · exact .given (hrest _)

/-- A target is made of the left side that it was read as. -/
theorem Spends.assignmentTarget (op : AssignOp) (left : Tree) (s : State) :
    Spends n s (left.opensAt n) (assignmentTarget op left) (Tree.opensAt n) := by
  unfold Parser.assignmentTarget
  split
  · exact spends_targets.1 left s
  · exact spends_targets.1 left s
  · exact .toSimpleTarget left s

theorem Rules.Spend.assignmentOrArrow (hr : r.Spend n) :
    Costs n (assignmentOrArrow r) (Tree.opensAt n) := by
  intro s
  refine .step hr.asyncNameArrow? fun t s => ?_
  split
  · exact .pure (Nat.le_refl _)
  refine .step hr.parenArrow? fun t s => ?_
  split
  · exact .pure (by simp)
  refine .less (Nat.zero_le _) <| .start <| .bind (hr.binaryRule _ s) fun left s' => .kind ?_
  have hleft := Tree.opensAt_le_dueAt n s.token.start left
  have htarget (op : AssignOp) : Spends n s' (left.dueAt n s.token.start)
      (Parser.assignmentTarget op left) (Tree.opensAt n) :=
    .less hleft (.assignmentTarget op left s')
  split
  · rename_i name span cs _
    -- The token of the variable is the one that the arrow starts with.
    refine .less ?_ (hr.arrowRest _ false (nameParameters name span) s')
    rw [opensAt_nameParameters]
    simp [Tree.dueAt, Label.isVariable]
  · split
    · exact .bind (htarget _) fun target _ => .skip .advance fun _ _ =>
        .step hr.assignment fun value _ => .node rfl (by simp; omega)
    · refine .skip (.eatPunct _) fun _ _ => .ite (fun _ => ?_) fun _ => .pure hleft
      exact .step (.within hr.assignment) fun yes _ => .skip (.expectPunct _) fun _ _ =>
        .step hr.assignment fun no _ => .node rfl (by simp; omega)

/-- A hint changes nothing else. -/
theorem opensAt_markQuiet (t : Tree) : (markQuiet t).opensAt n = t.opensAt n := by
  unfold markQuiet
  split <;> simp [Tree.opensAt_node, Label.isImport, Label.opens, Label.scopeKind?]

theorem Rules.Spend.assignmentRule (hr : r.Spend n) :
    Costs n (assignmentRule r) (Tree.opensAt n) := by
  intro s
  refine .look .atYield fun _ _ => .ite (fun _ => hr.yieldRule s) fun _ => .token ?_
  refine .step hr.assignmentOrArrow fun e _ => .pure ?_
  split
  · exact (opensAt_markQuiet e).le
  · exact Nat.le_refl _

theorem Rules.Spend.commaSteps (hr : r.Spend n) :
    ∀ bound, Costs n (commaSteps r bound) (Tree.allOpenAt n)
  | 0 => fun _ => .throw _
  | bound + 1 => fun _ => .skip (.eatPunct _) fun _ _ => .ite
      (fun _ => .step hr.assignmentRule fun e _ => .step (hr.commaSteps bound) fun es _ =>
        .pure (by simp; omega))
      fun _ => .pure (Nat.le_refl _)

theorem Rules.Spend.expressionRule (hr : r.Spend n) :
    Costs n (expressionRule r) (Tree.opensAt n) := fun _ =>
  .start <| .within <| .step hr.assignmentRule fun e _ => .look (.atPunct _) fun _ _ => .ite
    (fun _ => .step (hr.commaSteps _) fun es _ => .node rfl (by simp; omega))
    fun _ => .pure (Nat.le_refl _)

end

end Reactive.Script.Parser
