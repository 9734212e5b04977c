/-
  What expressions spend that are read again as targets.
-/
import Reactive.Proofs.Script.Spans.Credit

namespace Reactive.Script.Parser

section

variable {n : Nat}

/-- A target is made of the expression that it was read as. -/
theorem Spends.toSimpleTarget (t : Tree) (s : State) :
    Spends n s (t.opensAt n) (toSimpleTarget t) (Tree.opensAt n) := by
  fun_induction Parser.toSimpleTarget t with
  | case1 | case2 | case3 | case4 => exact .pure (Nat.le_refl _)
  | case5 | case6 | case8 => exact .throw _
  | case7 span t _ _ ih =>
    rw [Tree.opensAt_parts n rfl rfl]
    exact ih.less (by simp)

/-- A default that is taken out is no longer waiting. -/
theorem allOpenAt_filter_le (n begin : Nat) (ds : List (Nat × Tree)) :
    ((ds.find? fun d => d.1 == begin).elim .absent (·.2)).opensAt n
      + Tree.allOpenAt n ((ds.filter fun d => d.1 != begin).map (·.2))
      ≤ Tree.allOpenAt n (ds.map (·.2)) := by
  induction ds with
  | nil => simp
  | cons d ds ih =>
    by_cases hd : d.1 = begin
    · simp [hd]
      omega
    · simp [hd]
      omega

theorem Costs.takeDefault ( begin : Nat) :
    Costs n (takeDefault begin) fun v => (v.getD .absent).opensAt n := by
  intro s
  refine .get ?_
  have htaken := allOpenAt_filter_le n begin s.defaults
  split
  · rename_i value hfind
    rintro hs _ _ ⟨rfl, rfl⟩
    refine ⟨⟨hs.here, hs.next, hs.mark⟩, ?_⟩
    rw [hfind] at htaken
    simp [State.credit] at htaken ⊢
    omega
  · exact .pure (by simp)

theorem Costs.checkTrailingComma ( begin : Nat) : Costs n (checkTrailingComma begin) fun _ => 0 :=
  fun s => .get (Costs.flawIf _ s)

theorem Costs.checkRestTarget (t : Tree) : Costs n (checkRestTarget t) fun _ => 0 := fun s => by
  unfold Parser.checkRestTarget
  split
  · exact Costs.flaw s
  · exact Costs.flaw s
  · exact .pure (Nat.le_refl _)

/-- Expressions read again as targets, elements of arrays and properties of objects as well, are made
of what they were read as. -/
theorem spends_targets :
    (∀ t s, Spends n s (t.opensAt n) (toTarget t) (Tree.opensAt n))
    ∧ (∀ begin ts s, Spends n s (Tree.allOpenAt n ts) (propertyTargets begin ts) (Tree.allOpenAt n))
    ∧ ∀ begin ts s, Spends n s (Tree.allOpenAt n ts) (elementTargets begin ts)
      (Tree.allOpenAt n) := by
  refine toTarget.mutual_induct
    (fun t => ∀ s, Spends n s (t.opensAt n) (toTarget t) (Tree.opensAt n))
    (fun begin ts => ∀ s, Spends n s (Tree.allOpenAt n ts) (propertyTargets begin ts)
      (Tree.allOpenAt n))
    (fun begin ts => ∀ s, Spends n s (Tree.allOpenAt n ts) (elementTargets begin ts)
      (Tree.allOpenAt n)) ?array ?object ?simple ?noProperty ?lastRest ?innerRest ?shorthand
      ?defaulted ?property ?otherProperty ?noElement ?hole ?lastElement ?innerElement
      ?assignment ?element
  case array | object =>
    intro span cs ih s
    rw [toTarget, Tree.opensAt_parts n rfl rfl]
    exact .bind (ih s) fun ts _ => .pure (Tree.opensAt_parts n rfl rfl _ _).le
  case simple =>
    intro t harray hobject s
    rw [toTarget]
    · exact .toSimpleTarget t s
    · exact harray
    · exact hobject
  case noProperty | noElement =>
    intro begin s
    exact .pure (Nat.le_refl _)
  case lastRest =>
    intro begin span t rest hrest ih s
    rw [propertyTargets, if_pos hrest, Tree.allOpenAt_cons, Tree.opensAt_parts n rfl rfl]
    refine .skip (.checkTrailingComma _) fun _ _ => .skip (.checkRestTarget t) fun _ s =>
      .bind ((ih s).less ?_) fun t' _ => .pure ?_
    · simp
    · simp [Tree.opensAt_parts n (l := .targetRest) rfl rfl]
  case lastElement =>
    intro begin span t rest hrest ih s
    rw [elementTargets, if_pos hrest, Tree.allOpenAt_cons, Tree.opensAt_parts n rfl rfl]
    refine .skip (.checkTrailingComma _) fun _ s =>
      .bind ((ih s).less ?_) fun t' _ => .pure ?_
    · simp
    · simp [Tree.opensAt_parts n (l := .targetRest) rfl rfl]
  case innerRest =>
    intro begin span t rest hrest ih s
    rw [propertyTargets, if_neg hrest]
    exact fun _ _ _ h => nomatch h
  case innerElement =>
    intro begin span t rest hrest ih s
    rw [elementTargets, if_neg hrest]
    exact fun _ _ _ h => nomatch h
  case shorthand =>
    intro begin computed span name word children value rest ih s
    rw [propertyTargets, Tree.allOpenAt_cons]
    refine .less (Nat.le_add_left (Tree.allOpenAt n rest) _) ?_
    refine .step (.takeDefault _) fun v s => .bind ((ih s).frameLeft _) fun ts _ => .pure ?_
    simp [Tree.opensAt_parts n (l := .targetName) rfl rfl,
      Tree.opensAt_leaf n (l := .identifier name) rfl]
  case defaulted =>
    intro begin computed span key op v target default rest ih s
    rw [propertyTargets, Tree.allOpenAt_cons]
    refine .skip (.flawIf _) fun _ s => .bind ((ih s).frameLeft _) fun ts _ => .pure ?_
    simp [Tree.opensAt_parts n (l := .targetProperty computed) rfl rfl,
      Tree.opensAt_parts n (l := .property .init false false computed) rfl rfl,
      Tree.opensAt_parts n (l := .assign op) rfl rfl,
      Tree.opensAt_parts n (l := .targetDefault) rfl rfl]
  case property =>
    intro begin computed span key value rest hvalue ih ihrest s
    rw [propertyTargets, Tree.allOpenAt_cons, Tree.opensAt_parts n rfl rfl]
    · have hvalue := ((ih s).frameLeft (key.opensAt n)).frame (Tree.allOpenAt n rest)
      refine .bind (hvalue.less (by simp)) fun t' s => ?_
      refine .bind ((ihrest s).frameLeft _) fun ts _ => .pure ?_
      simp [Tree.opensAt_parts n (l := .targetProperty computed) rfl rfl]
    · exact hvalue
  case otherProperty =>
    intro begin label span children tail hspread hshorthand hdefaulted hproperty s
    rw [propertyTargets]
    · exact .throw _
    · exact hspread
    · exact hshorthand
    · exact hdefaulted
    · exact hproperty
  case hole =>
    intro begin span cs rest ih s
    rw [elementTargets, Tree.allOpenAt_cons]
    exact .bind ((ih s).frameLeft _) fun ts _ => .pure (by simp)
  case assignment =>
    intro begin op span target default rest ih s
    rw [elementTargets, Tree.allOpenAt_cons]
    refine .skip (.flawIf _) fun _ s => .bind ((ih s).frameLeft _) fun ts _ => .pure ?_
    simp [Tree.opensAt_parts n (l := .assign op) rfl rfl,
      Tree.opensAt_parts n (l := .targetDefault) rfl rfl]
  case element =>
    intro begin t rest hhole hspread hassign ih ihrest s
    rw [elementTargets, Tree.allOpenAt_cons]
    · exact .bind ((ih s).frame _) fun t' s => .bind ((ihrest s).frameLeft _) fun ts _ =>
        .pure (by simp)
    · exact hhole
    · exact hspread
    · exact hassign

end

end Reactive.Script.Parser
