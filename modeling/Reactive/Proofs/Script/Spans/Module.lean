/-
  What imports and exports spend.

  Nothing in an import counts, so its parts may count what they will. The names of an export are
  leaves: one of them may stand twice in the tree.
-/
import Reactive.Proofs.Script.Spans.Expression

namespace Reactive.Script.Parser

section

variable {n : Nat} {r : Rules}

/-! ## Shared parts -/

/-- A name between braces is a leaf, so twice of it is still nothing. -/
theorem Costs.moduleName : Costs n moduleName fun t => t.opensAt n + t.opensAt n := by
  have htwice {l : Label} (hl : l.opens = false) (span : Span) :
      (Tree.node l span []).opensAt n + (Tree.node l span []).opensAt n ≤ 0 := by
    rw [Tree.opensAt_leaf n hl]
  intro s
  refine .kind ?_
  split
  · refine .skip (.flawIf _) fun _ _ => .token ?_
    split
    · exact .skip .advance fun _ _ => .pure (htwice rfl _)
    · exact .unexpected
  · refine .token ?_
    split
    · exact .skip .advance fun _ _ => .pure (htwice rfl _)
    · exact .unexpected

theorem Costs.importAttribute : Costs n importAttribute (Tree.opensAt n) := by
  intro s
  refine .start <| .kind ?_
  split
  · exact .step .stringLiteral fun key _ => .skip (.expectPunct _) fun _ _ =>
      .step .stringLiteral fun value _ => .node rfl (by simp; omega)
  · exact .step .anyWord fun key _ => .skip (.expectPunct _) fun _ _ =>
      .step .stringLiteral fun value _ => .node rfl (by simp; omega)

theorem Costs.importAttributes (r : Rules) : Costs n (importAttributes r) (Tree.allOpenAt n) := by
  intro s
  have hnode (legacy : Bool) (items : List Tree) ( begin : Nat) (s : State) :
      Spends n s (Tree.allOpenAt n items) (node (.importAttributes legacy) begin items)
        (Tree.opensAt n) := .node rfl (Nat.le_refl _)
  refine .start <| .look (.atWord _) fun _ _ => .token <| .look (.atWord _) fun _ _ =>
    .ite (fun _ => ?_) fun _ => .pure (Nat.le_refl _)
  exact .skip .advanceKeyword fun _ _ => .skip (.expectPunct _) fun _ _ =>
    .step (.commaList .importAttribute _ _) fun ⟨items, _⟩ _ => .skip (.expectPunct _) fun _ _ =>
      .skip (.flawIf _) fun _ s => .bind (hnode _ items _ s) fun t _ => .pure (by simp)

/-! ## Imports -/

/-- An import counts nothing. -/
theorem Spends.importNode {s : State} {held : Nat} (phase : Option Phase) (bare : Bool)
    ( begin : Nat) (cs : List Tree) :
    Spends n s held (Parser.node (.importStatement phase bare) begin cs) (Tree.opensAt n) := by
  rintro hs _ _ ⟨rfl, rfl⟩
  refine ⟨hs, ?_⟩
  rw [Tree.opensAt_node]
  exact Nat.add_le_add_right (Nat.zero_le held) _

/-- What a reader gives does not matter. -/
theorem Costs.forget {α : Type} {p : Parser α} {f : α → Nat} (h : Costs n p f) :
    Costs n p fun _ => 0 :=
  fun s => (h s).mono (Nat.le_refl _) fun _ => Nat.zero_le _

/-- Nor does what a node is made of. -/
theorem Costs.nodeForget (l : Label) ( begin : Nat) (cs : List Tree) :
    Costs n (node l begin cs) fun _ => 0 := by
  rintro s hs _ _ ⟨rfl, rfl⟩
  exact ⟨hs, Nat.le_refl _⟩

theorem Costs.importName : Costs n importName fun _ => 0 := by
  intro s
  refine .start <| .token <| .skip moduleName.forget fun imported _ => .skip (.eatWord _) fun _ s =>
    .ite (fun _ => ?_) fun _ => ?_
  · exact .skip bindingName.forget fun name s => nodeForget _ _ _ s
  · split
    · exact .ite (fun _ => .skip (.checkName _) fun _ s => nodeForget _ _ _ s) fun _ => .unexpected
    · exact .unexpected

theorem Costs.importNames (r : Rules) : Costs n (importNames r) fun _ => 0 := fun _ =>
  .skip (.expectPunct _) fun _ _ => .skip (commaList importName _ _).forget fun _ _ =>
    .skip (.expectPunct _) fun _ _ => .pure (Nat.le_refl _)

theorem Costs.importNamespace : Costs n importNamespace fun _ => 0 := fun _ =>
  .start <| .skip (.expectPunct _) fun _ _ => .skip (.expectWord _) fun _ _ =>
    .skip bindingName.forget fun _ s => nodeForget _ _ _ s

theorem Costs.importClause (r : Rules) : Costs n (importClause r) fun _ => 0 := by
  intro s
  refine .kind ?_
  split
  · exact importNames r s
  · exact .skip importNamespace fun _ _ => .pure (Nat.le_refl _)
  refine .start <| .skip bindingName.forget fun _ _ => .skip (nodeForget _ _ _) fun _ _ =>
    .skip (.eatPunct _) fun _ _ => .ite (fun _ => .kind ?_) fun _ => .pure (Nat.le_refl _)
  split
  · exact .skip (importNames r) fun _ _ => .pure (Nat.le_refl _)
  · exact .skip importNamespace fun _ _ => .pure (Nat.le_refl _)
  · exact .unexpected

theorem Looks.phase? : Looks phase? := by
  refine .bind .kind fun k => ?_
  split
  · exact .bind .following fun _ => .pure _
  · exact .lookahead _
  · exact .pure _

theorem Costs.phaseClause (r : Rules) (phase : Option Phase) :
    Costs n (phaseClause r phase) fun _ => 0 := by
  intro s
  unfold Parser.phaseClause
  split
  · exact .start <| .skip bindingName.forget fun _ _ => .skip (nodeForget _ _ _) fun _ _ =>
      .pure (Nat.le_refl _)
  · exact importClause r s

theorem Costs.importStatement (r : Rules) : Costs n (importStatement r) (Tree.opensAt n) := by
  intro s
  refine .start <| .skip .advanceKeyword fun _ s => .kind ?_
  split
  · exact .skip stringLiteral.forget fun _ _ => .skip (importAttributes r).forget fun _ _ =>
      .skip .endStatement fun _ _ => .importNode _ _ _ _
  have hrest (phase : Option Phase) ( begin : Nat) (s : State) : Spends n s 0 (do
      let names ← Parser.phaseClause r phase
      Parser.expectWord "from"
      let source ← Parser.stringLiteral
      let attributes ← Parser.importAttributes r
      Parser.endStatement
      node (.importStatement phase false) begin (names ++ source :: attributes))
      (Tree.opensAt n) :=
    .skip (phaseClause r phase) fun _ _ => .skip (.expectWord _) fun _ _ =>
      .skip stringLiteral.forget fun _ _ => .skip (importAttributes r).forget fun _ _ =>
        .skip .endStatement fun _ _ => .importNode _ _ _ _
  refine .look .phase? fun phase _ => ?_
  dsimp only
  split
  · exact .skip .advance fun _ s => hrest phase _ s
  · exact hrest phase _ s

/-! ## Exports -/

theorem Costs.exportName : Costs n exportName (Tree.opensAt n) := fun _ =>
  .start <| .step .moduleName fun name _ => .skip (.eatWord _) fun _ _ => .ite
    (fun _ => .step .moduleName fun exported _ => .node rfl (by simp; omega))
    fun _ => .node rfl (by simp)

theorem Spends.localExport (t : Tree) (s : State) :
    Spends n s (t.opensAt n) (localExport t) (Tree.opensAt n) := by
  unfold Parser.localExport
  split
  · refine .skip (.flawIf _) fun _ _ => .pure ?_
    rw [Tree.opensAt_parts n rfl rfl, Tree.opensAt_parts n rfl rfl]
    simp [Tree.opensAt_parts n (l := .identifier _) rfl rfl]
  · exact .throw _

theorem Spends.localExports : ∀ (ts : List Tree) (s : State),
    Spends n s (Tree.allOpenAt n ts) (ts.mapM Parser.localExport) (Tree.allOpenAt n)
  | [], _ => .pure (Nat.le_refl _)
  | t :: ts, s => by
    rw [List.mapM_cons, Tree.allOpenAt_cons]
    exact .bind ((Spends.localExport t s).frame _) fun t' s =>
      .bind ((Spends.localExports ts s).frameLeft _) fun ts' _ => .pure (by simp)

theorem Looks.atLiteral : Looks atLiteral := by
  refine .bind .kind fun k => ?_
  split <;> exact .pure _

theorem Costs.exportNames (r : Rules) ( begin : Nat) :
    Costs n (exportNames r begin) (Tree.opensAt n) := by
  intro s
  have hitems : Costs n (Parser.commaList "\x7d" Parser.exportName r.bound true)
      fun x => Tree.allOpenAt n x.1 := .commaList .exportName _ _
  refine .skip (.expectPunct _) fun _ _ => .step hitems fun ⟨items, _⟩ _ =>
    .skip (.expectPunct _) fun _ _ => .skip (.eatWord _) fun _ _ => ?_
  have hlocal (s : State) : Spends n s (Tree.allOpenAt n items + 0) (do
      let items ← items.mapM Parser.localExport
      Parser.endStatement
      node (.exportNames false) begin items) (Tree.opensAt n) :=
    .bind (.localExports items s) fun ts _ => .skip .endStatement fun _ _ =>
      .node rfl (Nat.le_refl _)
  refine .look .atLiteral fun _ _ => .ite (fun _ => ?_) fun _ => hlocal _
  exact .step .stringLiteral fun source _ => .step (.importAttributes r) fun attributes _ =>
    .skip .endStatement fun _ _ => .node rfl (by simp; omega)

theorem Costs.exportAll (r : Rules) ( begin : Nat) :
    Costs n (exportAll r begin) (Tree.opensAt n) := by
  intro s
  have hrest (exported : Tree) (s : State) : Spends n s (exported.opensAt n) (do
      Parser.expectWord "from"
      let source ← Parser.stringLiteral
      let attributes ← Parser.importAttributes r
      Parser.endStatement
      node .exportAll begin (exported :: source :: attributes)) (Tree.opensAt n) :=
    .skip (.expectWord _) fun _ _ => .step .stringLiteral fun source _ =>
      .step (.importAttributes r) fun attributes _ => .skip .endStatement fun _ _ =>
        .node rfl (by simp; omega)
  refine .skip (.expectPunct _) fun _ _ => .skip (.eatWord _) fun _ s => .ite (fun _ => ?_) fun _ => ?_
  · exact .step .moduleName fun exported s => (hrest exported s).less (by omega)
  · exact .given ((hrest .absent s).less (by simp))

theorem Rules.Spend.exportedClass (hr : r.Spend n) (form : ClassForm) (decorated : List Tree)
    (s : State) :
    Spends n s (Tree.allOpenAt n decorated) (exportedClass r form decorated) (Tree.opensAt n) :=
  .start <| .step hr.decorators fun more _ => .skip (.flawIf _) fun _ s =>
    .of_due ((hr.classFrom form _ (decorated ++ more) s).less (by simp; omega))

theorem Looks.atAsyncFunction : Looks atAsyncFunction :=
  (Looks.atWord _).bind fun _ => .ite (.bind .following fun _ => .pure _) (.pure _)

theorem isMark_of_atAsyncFunction {s : State} (h : atAsyncFunction s = .ok true s) :
    s.token.kind.isMark := by
  obtain ⟨async, s₁, hasync, hrest⟩ := exists_of_bind h
  obtain rfl := Looks.atWord _ _ _ _ hasync
  cases async with
  | true => exact isMark_of_atWord hasync
  | false => cases hrest

theorem Rules.Spend.defaultValue (hr : r.Spend n) (decorated : List Tree) (s : State) :
    Spends n s (Tree.allOpenAt n decorated) (defaultValue r decorated)
      fun x => x.1.opensAt n := by
  refine .start <| .kind ?_
  split
  · exact .bind (hr.exportedClass .exported decorated s) fun t _ => .pure (Nat.le_refl _)
  · exact .bind (hr.exportedClass .exported decorated s) fun t _ => .pure (Nat.le_refl _)
  · exact .bind (.of_due (hr.functionFrom .exported .optional false (Nat.le_add_right _ _)))
      fun t _ => .pure (Nat.le_refl _)
  -- Before anything else the decorators are dropped, with what they count.
  refine .less (Nat.zero_le _) <| .look .atAsyncFunction fun async hasync => ?_
  split
  · rename_i hasync'
    obtain rfl := hasync'
    exact .bind (.advanceKeyword_mark (isMark_of_atAsyncFunction hasync)) fun _ _ =>
      .bind (.of_due (hr.functionFrom .exported .optional true (by omega))) fun t _ =>
        .pure (Nat.le_refl _)
  · exact .step hr.assignmentRule fun t _ => .pure (Nat.le_refl _)

theorem Rules.Spend.exportDefault (hr : r.Spend n) ( begin : Nat) (decorated : List Tree)
    (s : State) :
    Spends n s (Tree.allOpenAt n decorated) (exportDefault r begin decorated)
      (Tree.opensAt n) := by
  refine .token <| .bind (hr.defaultValue decorated s) fun ⟨value, whole⟩ s => ?_
  have hnode (hinted : Bool) (s : State) : Spends n s (value.opensAt n)
      (node .exportDefault begin [if hinted then markQuiet value else value]) (Tree.opensAt n) := by
    refine .node rfl ?_
    cases hinted <;> simp [opensAt_markQuiet]
  dsimp only
  split
  · exact hnode _ s
  · exact .skip .endStatement fun _ s => hnode _ s

theorem Rules.Spend.exportStatement (hr : r.Spend n) (decorated : List Tree)
    {declaration : Parser Tree} (hdeclaration : Costs n declaration (Tree.opensAt n)) (s : State) :
    Spends n s (Tree.allOpenAt n decorated) (exportStatement r decorated declaration)
      (Tree.opensAt n) := by
  refine .start <| .skip .advanceKeyword fun _ s => .kind ?_
  split
  · exact (Costs.exportNames r _ s).less (Nat.zero_le _)
  · exact (Costs.exportAll r _ s).less (Nat.zero_le _)
  · exact .skip .advanceKeyword fun _ s => hr.exportDefault _ decorated s
  · exact .bind (hr.exportedClass .declaration decorated s) fun c _ => .node rfl (by simp)
  · exact .bind (hr.exportedClass .declaration decorated s) fun c _ => .node rfl (by simp)
  · refine .ite (fun _ => .step hdeclaration fun d _ => ?_) fun _ => .unexpected
    split
    · exact .node rfl (by simp)
    · exact .node rfl (by simp)
    · exact .throw _
  · exact .unexpected

end

end Reactive.Script.Parser
