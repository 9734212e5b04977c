/-
  Pages stay current.

  Building a page computes the texts of its expressions from the store as it is, before any
  declaration has run; the declarations run afterwards and refresh what reads their names. From
  then on every change is followed by a refresh for the changed names. If the declarations are
  layered, the page is current after every such session.
-/
import Reactive.Proofs.Emit.Expressions
import Reactive.Proofs.Facts.Layers
import Reactive.Proofs.Refresh.Cascade

namespace Reactive.Refresh

open Emit Script

variable {V : Type}

namespace Meaning

variable (M : Meaning V) (refresh : List String → Page V → Option (Page V))

/-! ## Building -/

/-- Attributes leave the texts alone. -/
theorem foldlM_attributes (h : String) (attributes : List Attribute) (p : Page V) :
    ((attributes.map (attributeSteps h)).flatMap (·.1)).foldlM (M.build refresh) p = some p := by
  induction attributes with
  | nil => rfl
  | cons a attributes ih =>
    obtain ⟨name, value⟩ := a
    rw [List.map_cons, List.flatMap_cons, List.foldlM_append]
    cases value <;> exact ih

/-- Creating a node writes at most its own text; an expression shows what it computes. -/
theorem exists_creation (node : Node) (n : Nat) (p : Page V) :
    ∃ q, M.build refresh p (creation (handle (stem node) n) node) = some q ∧ q.store = p.store
      ∧ (∀ name, name ≠ handle (stem node) n → q.text name = p.text name)
      ∧ ∀ e, node.expression? = some e → q.text (handle "exp" n)
        = M.text (handle "exp" n) (printExpression e.code) p.store := by
  cases node with
  | element tag attributes children =>
    exact ⟨p, rfl, rfl, fun _ _ => rfl, fun _ he => absurd he (by simp [Node.expression?])⟩
  | text value =>
    exact ⟨_, rfl, rfl, fun _ hname => Function.update_of_ne hname ..,
      fun _ he => absurd he (by simp [Node.expression?])⟩
  | expression e =>
    refine ⟨_, rfl, rfl, fun _ hname => Function.update_of_ne hname .., fun e' he => ?_⟩
    obtain rfl : e = e' := by simpa [Node.expression?] using he
    exact Function.update_self ..

/-- Building a forest computes the texts of its expressions and writes no other texts. -/
theorem exists_build_forest (f : Facts) (nodes : List Node) (parent : String) (n : Nat)
    (p : Page V) :
    ∃ q, (forest f parent n nodes).build.foldlM (M.build refresh) p = some q
      ∧ q.store = p.store
      ∧ (∀ name, name ∉ (forest f parent n nodes).handles → q.text name = p.text name)
      ∧ ∀ k e, (nodes.flatMap Node.shown)[k]? = some (some e) → q.text (handle "exp" (n + k))
        = M.text (handle "exp" (n + k)) (printExpression e.code) p.store := by
  induction nodes using Node.forestInd generalizing parent n p with
  | nil => exact ⟨p, rfl, rfl, fun _ _ => rfl, fun _ _ h => absurd h (by simp)⟩
  | cons node nodes ihc ihn =>
    obtain ⟨p₁, hp₁, hstore₁, hother₁, hself⟩ := M.exists_creation refresh node n p
    obtain ⟨p₂, hp₂, hstore₂, hother₂, hinner⟩ := ihc (handle (stem node) n) (n + 1) p₁
    obtain ⟨p₃, hp₃, hstore₃, hother₃, hrest⟩ := ihn parent
      (n + ((forest f (handle (stem node) n) (n + 1) node.children).handles.length + 1)) p₂
    rw [forest_cons]
    dsimp only
    refine ⟨p₃, ?_, ?_, ?_, ?_⟩
    · rw [build_append, List.foldlM_append, around, List.foldlM_cons, hp₁]
      simp only [Option.bind_eq_bind, Option.bind_some]
      rw [List.foldlM_append, List.foldlM_append, M.foldlM_attributes]
      simp only [Option.bind_eq_bind, Option.bind_some]
      rw [hp₂]
      exact hp₃
    · rw [hstore₃, hstore₂, hstore₁]
    · intro name hname
      rw [handles_append, around, List.mem_append, List.mem_cons, not_or, not_or] at hname
      rw [hother₃ name hname.2, hother₂ name hname.1.2, hother₁ name hname.1.1]
    · -- The node itself, a node below it, or one that follows; later steps write other handles.
      intro k e hk
      have hlen := length_handles f (handle (stem node) n) (n + 1) node.children
      rw [Node.shown_cons] at hk
      cases k with
      | zero =>
        have hold := older_handle "exp" n
        rw [Nat.add_zero, hother₃ _ (hold.not_mem_handles f parent (by omega) nodes),
          hother₂ _ (hold.not_mem_handles f _ (Nat.le_refl _) node.children)]
        exact hself e (Option.some.inj hk)
      | succ k =>
        rw [List.getElem?_cons_succ] at hk
        by_cases hk' : k < (node.children.flatMap Node.shown).length
        · have hold := older_handle "exp" (n + 1 + k)
          have hnumber : n + (k + 1) = n + 1 + k := by omega
          rw [List.getElem?_append_left hk'] at hk
          rw [hnumber, hother₃ _ (hold.not_mem_handles f parent (by omega) nodes),
            hinner k e hk, hstore₁]
        · rw [List.getElem?_append_right (by omega)] at hk
          have htext := hrest _ e hk
          have hnumber : n + (k + 1) = n
              + ((forest f (handle (stem node) n) (n + 1) node.children).handles.length + 1)
              + (k - (node.children.flatMap Node.shown).length) := by omega
          rw [hnumber, htext, hstore₂, hstore₁]

end Meaning

/-! ## The reactions of a component -/

/-- What code computes depends on its free names only: those of the expression of a node, and
those of the value of a plain assignment. -/
structure Meaning.FreeOnly (M : Meaning V) (c : Component) : Prop where
  text : ∀ {k : Nat} {e : Expression}, c.template.shown[k]? = some (some e) →
    ∀ s s' : String → V, (∀ x ∈ freeNames e.code, s x = s' x) →
      M.text (handle "exp" k) (printExpression e.code) s
        = M.text (handle "exp" k) (printExpression e.code) s'
  value : ∀ {i : Nat} {a : Tree × Tree} {d : Declaration},
    (plainAssignments c.statements)[i]? = some a → (analyze c).responsive[i]? = some d →
    ∀ s s' : String → V, (∀ x ∈ a.2.freeNames, s x = s' x) →
      ∀ x ∈ d.assignees, M.value d x s = M.value d x s'

/-- The reactions of a component with layered declarations fit together; the rank of a
declaration is its place. -/
theorem cascade_allReactions {c : Component} (h : Layered c.statements) {M : Meaning V}
    (hM : M.FreeOnly c) :
    M.Cascade (analyze c).reactive (allReactions (analyze c) c.template)
      (analyze c).responsive.idxOf (analyze c).responsive.length := by
  -- A declaration that occurs is found at its rank.
  have hplace : ∀ {d}, .rerun d ∈ allReactions (analyze c) c.template →
      (analyze c).responsive[(analyze c).responsive.idxOf d]? = some d := fun hd =>
    List.getElem?_idxOf (rerun_mem_allReactions.mp hd)
  refine ⟨?reads, ?reactive, ?texts, ?once, ?forward, ?rank_lt⟩
  case reads =>
    intro r hr s s' hsame
    cases r with
    | updateText reads name code =>
      obtain ⟨k, e, hk, htext⟩ := updateText_mem_allReactions.mp hr
      obtain ⟨rfl, rfl, rfl⟩ : reactiveReads (analyze c) e = reads ∧ handle "exp" k = name
          ∧ printExpression e.code = code := by simpa [textReaction] using htext
      refine hM.text hk s s' fun x hx => hsame x fun hreactive => ?_
      exact List.mem_filter.mpr ⟨hx, by simpa using hreactive⟩
    | rerun d =>
      obtain ⟨a, ha, -, hreads⟩ := h.getElem?_responsive (hplace hr)
      exact hM.value ha (hplace hr) s s' fun x hx => hsame x fun hreactive =>
        (hreads x).mpr ⟨hx, hreactive⟩
  case reactive =>
    intro d hd x hx
    obtain ⟨a, ha, hassignees, -⟩ := h.getElem?_responsive (hplace hd)
    exact h.mem_reactive.mpr (Or.inr ⟨_, a, ha, hassignees ▸ hx⟩)
  case texts =>
    intro reads reads' name code code' hr hr'
    obtain ⟨k, e, hk, htext⟩ := updateText_mem_allReactions.mp hr
    obtain ⟨k', e', hk', htext'⟩ := updateText_mem_allReactions.mp hr'
    simp only [textReaction, Reaction.updateText.injEq] at htext htext'
    obtain rfl : k = k' := handle_inj (htext.2.1.trans htext'.2.1.symm)
    rw [hk, Option.some_inj, Option.some_inj] at hk'
    rw [← htext.2.2, ← htext'.2.2, hk']
  case once =>
    intro d d' x hd hd' hx hx'
    obtain ⟨a, ha, hassignees, -⟩ := h.getElem?_responsive (hplace hd)
    obtain ⟨b, hb, hassignees', -⟩ := h.getElem?_responsive (hplace hd')
    have hsame := h.once ha hb (hassignees ▸ hx) (hassignees' ▸ hx')
    have hd₂ := hplace hd
    rw [hsame, hplace hd'] at hd₂
    exact (Option.some.inj hd₂).symm
  case forward =>
    intro d d' x hd hd' hx hx'
    obtain ⟨a, ha, hassignees, -⟩ := h.getElem?_responsive (hplace hd)
    obtain ⟨b, hb, -, hreads⟩ := h.getElem?_responsive (hplace hd')
    exact h.forward ha hb (hassignees ▸ hx) ((hreads x).mp hx').1
  case rank_lt =>
    intro d hd
    exact List.idxOf_lt_length_of_mem (rerun_mem_allReactions.mp hd)

/-! ## Sessions -/

/-- After building and after every finite number of moves, every expression node shows what its
expression computes, every assignee holds what its declaration computes, and all other names hold
what was written last. -/
theorem session_ends_current (c : Component) (o : Options) (h : Layered c.statements)
    {M : Meaning V} (hM : M.FreeOnly c) (start : Page V) {moves : List (Move V)}
    (hmoves : ∀ m ∈ moves, ∀ x ∈ m.names,
      x ∈ (analyze c).reactive ∧ x ∉ (analyze c).assignees) :
    let f := analyze c
    let compiled := generate c f o
    ∃ page, Meaning.Ends (M.session compiled.construct compiled.refresh start moves) page
      ∧ (∀ k e, c.template.shown[k]? = some (some e) → page.text (handle "exp" k)
        = M.text (handle "exp" k) (printExpression e.code) page.store)
      ∧ (∀ d ∈ f.responsive, ∀ x ∈ d.assignees, page.store x = M.value d x page.store)
      ∧ ∀ x ∉ f.assignees, page.store x
        = moves.foldl (fun v m => if x ∈ m.names then m.values x else v) (start.store x) := by
  intro f compiled
  have hcascade : M.Cascade f.reactive (allReactions f c.template) f.responsive.idxOf
      f.responsive.length := cascade_allReactions h hM
  have hassignees : ∀ {x}, x ∉ f.assignees ↔
      ∀ d, .rerun d ∈ allReactions f c.template → x ∉ d.assignees := by
    intro x
    show x ∉ (analyzeStatements ..).assignees ↔ _
    rw [mem_assignees]
    simp only [rerun_mem_allReactions, not_exists, not_and]
    rfl
  -- The texts are current before the declarations run, and stay so while they do.
  obtain ⟨first, hfirst, hstore, -, htexts⟩ := M.exists_build_forest
    (M.refresh ((allReactions f c.template).filter fun r => !r.triggers.isEmpty)
      (f.responsive.length + 1)) f c.template.nodes targetName 0 start
  obtain ⟨built, hbuilt, hkeep, hdeclared⟩ := hcascade.exists_declareAll (Nat.le_refl _)
    (fun d hd => rerun_mem_allReactions.mpr hd) first
  have hcurrent : ∀ r ∈ allReactions f c.template, M.Current built r := by
    intro r hr
    cases r with
    | rerun d => exact hdeclared d (rerun_mem_allReactions.mp hr)
    | updateText reads name code =>
      refine hkeep.current _ hr ?_
      obtain ⟨k, e, hk, htext⟩ := updateText_mem_allReactions.mp hr
      obtain ⟨-, rfl, rfl⟩ : reactiveReads f e = reads ∧ handle "exp" k = name
          ∧ printExpression e.code = code := by simpa [textReaction] using htext
      have := htexts k e hk
      rwa [Nat.zero_add, ← hstore] at this
  obtain ⟨page, hpage, hpages, hframe⟩ := hcascade.exists_moves (Nat.le_refl _)
    (fun m hm x hx => ⟨(hmoves m hm x hx).1, hassignees.mp (hmoves m hm x hx).2⟩) hcurrent
  have hsession : M.session compiled.construct compiled.refresh start moves
      (f.responsive.length + 1) = some page := by
    rw [generate_construct, generate_refresh, Meaning.session, List.foldlM_append, hfirst]
    simp only [Option.bind_eq_bind, Option.bind_some, List.foldlM_map]
    exact Option.bind_eq_some_iff.mpr ⟨built, hbuilt, hpage⟩
  refine ⟨page, M.ends_of_session hsession, ?_, ?_, ?_⟩
  · intro k e hk
    have hmem : textReaction f e k ∈ textReactions f 0 c.template.shown :=
      mem_textReactions.mpr ⟨k, e, hk, rfl⟩
    exact hpages _ (List.mem_append_left _ hmem)
  · intro d hd
    exact hpages (.rerun d) (rerun_mem_allReactions.mpr hd)
  · intro x hx
    have hunassigned := hassignees.mp hx
    rw [hframe x hunassigned, hkeep.frame x hunassigned, hstore]

/-- Two declarations in a row: after a move to five, the node shows the double of six. -/
theorem session_shows_chain :
    let c : Component := ⟨"", ⟨[.expression ⟨"e0", "b"⟩], []⟩,
      some ⟨"let n = 0; n++; $: a = n + 1; $: b = a * 2;", []⟩⟩
    let M : Meaning Int :=
      { value := fun d _ s => if d.assignees = ["a"] then s "n" + 1 else s "a" * 2
        text := fun _ _ s => toString (s "b") }
    let compiled := generate c (analyze c) default
    ∃ page, Meaning.Ends (M.session compiled.construct compiled.refresh ⟨fun _ => 0, fun _ => ""⟩
        [⟨["n"], fun _ => 5⟩]) page
      ∧ page.text "exp_0" = "12" := by
  intro c M compiled
  -- What the theorem asks of the script, computed at once.
  obtain ⟨hplain, hbodies, hassignees, hn⟩ :
      (plainAssignments c.statements).map (fun a => (a.1.targetNames, a.2.freeNames))
          = [(["a"], ["n"]), (["b"], ["a"])]
        ∧ (∀ body ∈ reactiveBodies c.statements, (plainAssignment? body).isSome)
        ∧ (analyze c).responsive.map (·.assignees) = [["a"], ["b"]]
        ∧ "n" ∈ (analyze c).reactive ∧ "n" ∉ (analyze c).assignees := by decide +kernel
  have hplaces : ∀ {i : Nat} {a : Tree × Tree}, (plainAssignments c.statements)[i]? = some a →
      i = 0 ∧ a.1.targetNames = ["a"] ∧ a.2.freeNames = ["n"]
        ∨ i = 1 ∧ a.1.targetNames = ["b"] ∧ a.2.freeNames = ["a"] := by
    intro i a hi
    have hnames := congrArg (·[i]?) hplain
    rw [List.getElem?_map, hi] at hnames
    match i with
    | 0 => exact Or.inl ⟨rfl, by simpa using hnames⟩
    | 1 => exact Or.inr ⟨rfl, by simpa using hnames⟩
    | i + 2 => exact absurd hnames (by simp)
  have hlayers : Layered c.statements := by
    refine ⟨hbodies, ?_, ?_⟩
    · intro i j a b x hi hj hx hx'
      rcases hplaces hi with ⟨rfl, ha, -⟩ | ⟨rfl, ha, -⟩ <;>
        rcases hplaces hj with ⟨rfl, hb, -⟩ | ⟨rfl, hb, -⟩ <;> simp_all
    · intro i j a b x hi hj hx hx'
      rcases hplaces hi with ⟨rfl, ha, -⟩ | ⟨rfl, ha, -⟩ <;>
        rcases hplaces hj with ⟨rfl, -, hb⟩ | ⟨rfl, -, hb⟩ <;> simp_all
  have hM : M.FreeOnly c := by
    refine ⟨?_, ?_⟩
    · intro k e hk s u hsame
      have hshown : c.template.shown = [some ⟨"e0", "b"⟩] := rfl
      obtain rfl : (⟨"e0", "b"⟩ : Expression) = e := by
        match k with
        | 0 => simpa [hshown] using hk
        | k + 1 => exact absurd hk (by simp [hshown])
      have hfree : freeNames "b" = ["b"] := by decide +kernel
      show toString (s "b") = toString (u "b")
      rw [hsame "b" (by rw [hfree]; exact List.mem_singleton_self "b")]
    · intro i a d hi hd s u hsame x hx
      have hnames := congrArg (·[i]?) hassignees
      rw [List.getElem?_map, hd] at hnames
      rcases hplaces hi with ⟨rfl, -, hfree⟩ | ⟨rfl, -, hfree⟩
      · obtain hd' : d.assignees = ["a"] := by simpa using hnames
        simp [M, hd', hsame "n" (by simp [hfree])]
      · obtain hd' : d.assignees = ["b"] := by simpa using hnames
        simp [M, hd', hsame "a" (by simp [hfree])]
  have hmoves : ∀ m ∈ ([⟨["n"], fun _ => 5⟩] : List (Move Int)), ∀ x ∈ m.names,
      x ∈ (analyze c).reactive ∧ x ∉ (analyze c).assignees := by
    simpa using hn
  obtain ⟨page, hends, htext, hvalue, hstore⟩ :=
    session_ends_current c default hlayers hM ⟨fun _ => 0, fun _ => ""⟩ hmoves
  obtain ⟨d, hd, hda⟩ := List.mem_map.mp (show ["a"] ∈ _ from hassignees ▸ List.mem_cons_self)
  obtain ⟨d', hd', hdb⟩ := List.mem_map.mp
    (show ["b"] ∈ _ from hassignees ▸ List.mem_cons_of_mem _ List.mem_cons_self)
  have hfive : page.store "n" = 5 := hstore "n" hn.2
  have ha : page.store "a" = 6 := by
    rw [hvalue d hd "a" (by simp [hda])]
    simp [M, hda, hfive]
  have hb : page.store "b" = 12 := by
    rw [hvalue d' hd' "b" (by simp [hdb])]
    simp [M, hdb, ha]
  have hname : "exp_0" = handle "exp" 0 := by decide
  refine ⟨page, hends, ?_⟩
  rw [hname, htext 0 ⟨"e0", "b"⟩ rfl]
  show toString (page.store "b") = "12"
  rw [hb]
  decide

end Reactive.Refresh
