/-
  What guards a refresh.

  A refresh looks at the text updates of the nodes in document order and then at the declarations
  that depend on something. Each of them is guarded by the reactive names that it reads, each name
  once, in the order in which they occur. The handles of the nodes are distinct, so that the text
  update under the handle of a node can only be its own: one pass over the reactions, without the
  refreshes that declarations start, computes the text of a node anew exactly if the node reads a
  reactive name that has changed.
-/
import Reactive.Proofs.Emit.Walk
import Reactive.Proofs.Refresh.Firing
import Mathlib.Data.List.Nodup

namespace Reactive

namespace Script

/-! ## Occurrences of free names -/

/-- Every reference to a free name of the expression that a text starts with, in source order; none
if it cannot be read. -/
def freeReferences (code : String) : List String :=
  match parseExpression code.toList with
  | .ok t => t.references.filter fun name => !t.bound.contains name
  | .error _ => []

theorem freeNames_eq_eraseDups (code : String) :
    freeNames code = (freeReferences code).eraseDups := by
  unfold freeNames freeReferences
  cases parseExpression code.toList <;> rfl

/-- Leaving names out keeps the order in which the others occur first. -/
theorem filter_eraseDups (p : String → Bool) (names : List String) :
    names.eraseDups.filter p = (names.filter p).eraseDups := by
  cases names with
  | nil => rfl
  | cons name names =>
    rw [List.eraseDups_cons, List.filter_cons, List.filter_cons, filter_eraseDups,
      List.filter_filter]
    by_cases hp : p name = true
    · rw [if_pos hp, if_pos hp, List.eraseDups_cons, List.filter_filter]
      simp only [Bool.and_comm]
    · -- The name is left out, so that it does not matter whether its repetitions are.
      rw [if_neg hp, if_neg hp]
      congr 1
      refine List.filter_congr fun other _ => ?_
      by_cases heq : other = name <;> simp_all
termination_by names.length
decreasing_by exact Nat.lt_succ_of_le (List.length_filter_le _ _)

end Script

namespace Emit

/-! ## Guards as they are written -/

/-- What a reaction does behind its guard, as it is written. -/
def Reaction.body : Reaction → String
  | .updateText _ handle code => handle ++ ".textContent = " ++ code ++ ";"
  | .rerun d => "\x7b\n" ++ deeper (declarationBody d) ++ "\n\x7d"

/-- A reaction is written behind the condition that one of its triggers has changed. -/
theorem Reaction.write_eq_guarded (r : Reaction) :
    r.write = "if (" ++ changedGuard r.triggers ++ ") " ++ r.body := by
  cases r with
  | updateText reads handle code => simp [write, body, triggers, String.append_assoc]
  | rerun d =>
    have hopening : ") \x7b\n" = ") " ++ "\x7b\n" := rfl
    simp only [write, body, triggers, String.append_assoc, hopening]

/-! ## Text updates under handles -/

/-- The handle of the node whose text a reaction computes anew. -/
def Reaction.handle? : Reaction → Option String
  | .updateText _ handle _ => some handle
  | .rerun _ => none

/-- The handles whose texts one pass over reactions computes anew. -/
def updatedHandles (reactions : List Reaction) (changed : List String) : List String :=
  (reactions.filter (·.triggeredBy changed)).filterMap Reaction.handle?

/-- What a compiled component refreshes: the text updates of its nodes under their handles, and the
declarations that depend on something. -/
def guarded (f : Facts) (placed : List (Node × String)) : List Reaction :=
  placed.filterMap (fun x => textUpdate? f x.1 x.2) ++ reruns f

theorem textUpdate?_eq_some {f : Facts} {node : Node} {name : String} {r : Reaction} :
    textUpdate? f node name = some r ↔ ∃ e, node = .expression e ∧ reactiveReads f e ≠ []
      ∧ r = .updateText (reactiveReads f e) name (Script.printExpression e.code) := by
  cases node with
  | element tag attributes children => simp [textUpdate?]
  | text value => simp [textUpdate?]
  | expression e =>
    show (if reactiveReads f e = [] then none else some _) = some r ↔ _
    by_cases hreads : reactiveReads f e = []
    · simp [hreads]
    · rw [if_neg hreads]
      simp only [Option.some.injEq, Node.expression.injEq, exists_eq_left', eq_comm (a := r), ne_eq,
        hreads, not_false_eq_true, true_and]
      rfl

section

variable {f : Facts} {placed : List (Node × String)} (hnodup : (placed.map (·.2)).Nodup)
  {e : Expression} {name : String} (hplaced : (.expression e, name) ∈ placed)

include hnodup hplaced

/-- The only text update under the handle of an expression node is its own. -/
theorem mem_guarded_of_handle {r : Reaction} (hhandle : r.handle? = some name) :
    r ∈ guarded f placed ↔ reactiveReads f e ≠ []
      ∧ r = .updateText (reactiveReads f e) name (Script.printExpression e.code) := by
  rw [guarded, List.mem_append]
  constructor
  · rintro (hr | hr)
    · obtain ⟨⟨node, name'⟩, hmem, hr⟩ := List.mem_filterMap.mp hr
      obtain ⟨e', rfl, hreads, rfl⟩ := textUpdate?_eq_some.mp hr
      -- Two nodes with the same handle are the same node.
      obtain rfl : name' = name := by simpa [Reaction.handle?] using hhandle
      have hsame := List.inj_on_of_nodup_map hnodup hmem hplaced rfl
      obtain rfl : e' = e := by simpa using hsame
      exact ⟨hreads, rfl⟩
    · obtain ⟨d, -, rfl⟩ := List.mem_map.mp hr
      exact absurd hhandle (by simp [Reaction.handle?])
  · rintro ⟨hreads, rfl⟩
    refine Or.inl (List.mem_filterMap.mpr ⟨_, hplaced, ?_⟩)
    exact textUpdate?_eq_some.mpr ⟨e, rfl, hreads, rfl⟩

/-- A pass computes the text of an expression node anew exactly if the node reads a reactive name
that has changed. -/
theorem mem_updatedHandles {changed : List String} :
    name ∈ updatedHandles (guarded f placed) changed ↔
      ∃ x ∈ Script.freeNames e.code, x ∈ f.reactive ∧ x ∈ changed := by
  have htriggers : ∀ x, x ∈ reactiveReads f e ↔ x ∈ Script.freeNames e.code ∧ x ∈ f.reactive := by
    simp [reactiveReads]
  rw [updatedHandles, List.mem_filterMap]
  constructor
  · rintro ⟨r, hr, hhandle⟩
    obtain ⟨hr, htrigger⟩ := List.mem_filter.mp hr
    obtain ⟨-, rfl⟩ := (mem_guarded_of_handle hnodup hplaced hhandle).mp hr
    obtain ⟨x, hx, hchanged⟩ := Reaction.triggeredBy_iff.mp htrigger
    obtain ⟨hfree, hreactive⟩ := (htriggers x).mp hx
    exact ⟨x, hfree, hreactive, hchanged⟩
  · rintro ⟨x, hfree, hreactive, hchanged⟩
    have hx := (htriggers x).mpr ⟨hfree, hreactive⟩
    refine ⟨_, List.mem_filter.mpr ⟨(mem_guarded_of_handle hnodup hplaced rfl).mpr
      ⟨List.ne_nil_of_mem hx, rfl⟩, ?_⟩, rfl⟩
    exact Reaction.triggeredBy_iff.mpr ⟨x, hx, hchanged⟩

end

/-! ## Nodes and handles of a component -/

section

variable (c : Component) (f : Facts) (o : Options)

/-- A component creates its nodes in document order, each under its handle. -/
theorem creations_generate :
    (generate c f o).construct.filterMap Step.creation?
      = (handled 0 c.template.nodes).map fun x => creation x.2 x.1 := by
  rw [generate_construct, List.filterMap_append, creations_forest, List.filterMap_map]
  simp [Function.comp_def, Step.creation?]

/-- The nodes of a component in document order have the handles that it creates. -/
theorem zip_created_generate :
    (Node.walkAll c.template.nodes).zip ((generate c f o).construct.filterMap Step.created?)
      = handled 0 c.template.nodes := by
  refine (List.zip_of_prod ?_ ?_).symm
  · rw [handled, List.map_map]
    exact List.zipIdx_map_fst 0 _
  · rw [generate_construct, List.filterMap_append, created_forest, handles_forest,
      List.filterMap_map]
    simp [Function.comp_def, Step.created?]

theorem nodup_handled (nodes : List Node) : ((handled 0 nodes).map (·.2)).Nodup := by
  rw [← handles_forest default targetName]
  exact (numbered_handles default targetName 0 nodes).nodup

theorem refresh_eq_guarded :
    (generate c f o).refresh = guarded f (handled 0 c.template.nodes) := by
  show (markup f c.template).reactions ++ reruns f = _
  rw [markup_eq_forest, reactions_forest_eq_textUpdates, guarded]

end

end Emit

namespace Refresh

open Emit

/-! ## One pass over a page -/

section

variable {V : Type} (M : Meaning V)

/-- A pass that leaves the refreshes of its declarations out ends, and its reactions do their part
one after the other. -/
theorem Meaning.foldlM_react_alone (reactions : List Reaction) (changed : List String)
    (p : Page V) :
    reactions.foldlM (M.react (fun _ q => some q) changed) p
      = some ((reactions.filter (·.triggeredBy changed)).foldl M.perform p) := by
  have hfire : ∀ p r, M.fire (fun _ q => some q) p r = some (M.perform p r) := by
    intro p r
    cases r <;> simp [Meaning.fire, Meaning.declare, Meaning.perform]
  induction reactions generalizing p with
  | nil => rfl
  | cons r reactions ih =>
    rw [List.foldlM_cons, Meaning.react, List.filter_cons]
    by_cases htrigger : r.triggeredBy changed = true
    · rw [if_pos htrigger, if_pos htrigger, hfire]
      exact ih _
    · rw [if_neg htrigger, if_neg htrigger]
      exact ih p

/-- Declarations leave the texts of nodes alone. -/
theorem Meaning.text_foldl_reruns (declarations : List Declaration) (p : Page V) :
    ((declarations.map Reaction.rerun).foldl M.perform p).text = p.text := by
  induction declarations generalizing p with
  | nil => rfl
  | cons d declarations ih => exact ih _

/-- Text updates read the variables as they were, so that only a node's own update counts. -/
theorem Meaning.text_foldl_updates {rs : List Reaction} {name code : String}
    (htexts : ∀ r ∈ rs, r.handle?.isSome)
    (hown : ∀ r ∈ rs, r.handle? = some name → ∃ reads, r = .updateText reads name code)
    (p : Page V) :
    (rs.foldl M.perform p).text name
      = if name ∈ rs.filterMap Reaction.handle? then M.text name code p.store else p.text name := by
  induction rs generalizing p with
  | nil => rfl
  | cons r rs ih =>
    rw [List.foldl_cons, ih (fun r hr => htexts r (List.mem_cons_of_mem _ hr))
      (fun r hr => hown r (List.mem_cons_of_mem _ hr))]
    cases r with
    | rerun d => exact absurd (htexts _ List.mem_cons_self) (by simp [Reaction.handle?])
    | updateText reads' name' code' =>
      rw [List.filterMap_cons_some (show Reaction.handle? (.updateText ..) = some name' from rfl)]
      show (if _ then M.text name code p.store else Function.update p.text name' _ name) = _
      by_cases hname : name = name'
      · -- The node's own update: whether it comes again does not matter.
        obtain ⟨reads, hr⟩ := hown _ List.mem_cons_self (by simp [Reaction.handle?, hname])
        obtain ⟨-, rfl, rfl⟩ : reads' = reads ∧ name' = name ∧ code' = code := by simpa using hr
        simp
      · simp [hname]

/-- After a pass, the node of an expression shows what it computes if it was updated, and what it
showed before if not. -/
theorem Meaning.text_pass {f : Facts} {placed : List (Node × String)}
    (hnodup : (placed.map (·.2)).Nodup) {e : Expression} {name : String}
    (hplaced : (.expression e, name) ∈ placed) (changed : List String) (p : Page V) :
    (((guarded f placed).filter (·.triggeredBy changed)).foldl M.perform p).text name
      = if name ∈ updatedHandles (guarded f placed) changed
        then M.text name (Script.printExpression e.code) p.store else p.text name := by
  have hreruns : (reruns f).filter (·.triggeredBy changed)
      = (f.responsive.filter fun d => !d.dependencies.isEmpty
          && (Reaction.rerun d).triggeredBy changed).map Reaction.rerun := by
    rw [reruns, List.filter_map, List.filter_filter]
    simp only [Function.comp_def, Bool.and_comm]
  have hhandles (declarations : List Declaration) :
      (declarations.map Reaction.rerun).filterMap Reaction.handle? = [] := by
    rw [List.filterMap_map]
    exact List.filterMap_eq_nil_iff.mpr fun _ _ => rfl
  -- Declarations come last, so that the texts are settled before any variable changes.
  rw [updatedHandles, guarded, List.filter_append, List.foldl_append, hreruns, text_foldl_reruns,
    List.filterMap_append, hhandles, List.append_nil]
  refine M.text_foldl_updates ?_ ?_ p
  · intro r hr
    obtain ⟨x, -, hx⟩ := List.mem_filterMap.mp (List.mem_of_mem_filter hr)
    obtain ⟨e', -, -, rfl⟩ := textUpdate?_eq_some.mp hx
    rfl
  · intro r hr hhandle
    have hmem : r ∈ guarded f placed := List.mem_append_left _ (List.mem_of_mem_filter hr)
    exact ⟨_, ((mem_guarded_of_handle hnodup hplaced hhandle).mp hmem).2⟩

end

/-! ## Components -/

/-- Whatever the facts are, a component refreshes the text of each expression node that reads
reactive names, in document order, under the handle under which it creates that node, and then each
declaration that depends on something. Each is written behind a guard of just the names that
trigger it, in the order in which they occur first. So one pass computes the text of an expression
node anew if and only if the node reads a reactive name that has changed, and leaves it alone
otherwise; nodes that read different names are not updated together for one changed name. -/
theorem refresh_guards_exact (c : Component) (f : Facts) (o : Options) :
    let p := generate c f o
    let placed := (Node.walkAll c.template.nodes).zip (p.construct.filterMap Step.created?)
    (placed.map (·.1) = Node.walkAll c.template.nodes ∧ (placed.map (·.2)).Nodup
      ∧ p.construct.filterMap Step.creation? = placed.map fun x => creation x.2 x.1)
    ∧ p.refresh = placed.filterMap (fun x => textUpdate? f x.1 x.2)
        ++ (f.responsive.filter fun d => !d.dependencies.isEmpty).map Reaction.rerun
    ∧ p.listing.refresh
        = p.refresh.map (fun r => "if (" ++ changedGuard r.triggers ++ ") " ++ r.body)
    ∧ (∀ e, reactiveReads f e
        = ((Script.freeReferences e.code).filter f.reactive.contains).eraseDups)
    ∧ (∀ e name, (.expression e, name) ∈ placed → ∀ changed,
        (name ∈ updatedHandles p.refresh changed ↔
          ∃ x ∈ Script.freeNames e.code, x ∈ f.reactive ∧ x ∈ changed)
        ∧ ∀ (V : Type) (M : Meaning V) (page : Page V), ∃ page',
          p.refresh.foldlM (M.react (fun _ q => some q) changed) page = some page'
          ∧ page'.text name = if name ∈ updatedHandles p.refresh changed
            then M.text name (Script.printExpression e.code) page.store else page.text name)
    ∧ ∀ e name e' name', (.expression e, name) ∈ placed → (.expression e', name') ∈ placed →
        (Script.freeNames e.code).Disjoint (Script.freeNames e'.code) → ∀ x,
        ¬ (name ∈ updatedHandles p.refresh [x] ∧ name' ∈ updatedHandles p.refresh [x]) := by
  intro p placed
  have hplaced : placed = handled 0 c.template.nodes := zip_created_generate c f o
  have hnodup : (placed.map (·.2)).Nodup := hplaced ▸ nodup_handled c.template.nodes
  have hrefresh : p.refresh = guarded f placed := hplaced ▸ refresh_eq_guarded c f o
  have hupdated : ∀ e name, (.expression e, name) ∈ placed → ∀ changed,
      name ∈ updatedHandles p.refresh changed ↔
        ∃ x ∈ Script.freeNames e.code, x ∈ f.reactive ∧ x ∈ changed := by
    intro e name hmem changed
    rw [hrefresh]
    exact mem_updatedHandles hnodup hmem
  refine ⟨⟨?_, hnodup, ?_⟩, hrefresh, ?_, ?_, ?_, ?_⟩
  · rw [hplaced, handled, List.map_map]
    exact List.zipIdx_map_fst 0 _
  · rw [hplaced]
    exact creations_generate c f o
  · exact List.map_congr_left fun r _ => r.write_eq_guarded
  · intro e
    rw [reactiveReads, Script.freeNames_eq_eraseDups, Script.filter_eraseDups]
  · refine fun e name hmem changed => ⟨hupdated e name hmem changed, fun V M page => ?_⟩
    refine ⟨_, M.foldlM_react_alone p.refresh changed page, ?_⟩
    rw [hrefresh]
    exact M.text_pass hnodup hmem changed page
  · rintro e name e' name' hmem hmem' hdisjoint x ⟨hname, hname'⟩
    obtain ⟨y, hy, -, hyx⟩ := (hupdated e name hmem [x]).mp hname
    obtain ⟨z, hz, -, hzx⟩ := (hupdated e' name' hmem' [x]).mp hname'
    rw [List.mem_singleton] at hyx hzx
    exact hdisjoint hy (hyx ▸ hzx ▸ hz)

/-- An expression in mixed text below an element and one beside it that reads another name: the
change of the name that the first one reads updates its handle and not the other. -/
theorem refresh_guards_mixed :
    let c : Component := ⟨"", ⟨[.element "p" [] [.text "n: ", .expression ⟨"e0", "n * k"⟩],
      .expression ⟨"e1", "m + 1"⟩], []⟩, some ⟨"let n = 0, m = 0; const k = 2; n++; m++;", []⟩⟩
    let reactions := (generate c (analyze c) default).refresh
    "exp_2" ∈ updatedHandles reactions ["n"] ∧ "exp_3" ∉ updatedHandles reactions ["n"] := by
  intro c reactions
  have hplaced : (Node.walkAll c.template.nodes).zip
      ((generate c (analyze c) default).construct.filterMap Step.created?)
        = [(.element "p" [] [.text "n: ", .expression ⟨"e0", "n * k"⟩], "p_0"),
          (.text "n: ", "txt_1"), (.expression ⟨"e0", "n * k"⟩, "exp_2"),
          (.expression ⟨"e1", "m + 1"⟩, "exp_3")] := by
    rw [zip_created_generate]
    rfl
  obtain ⟨hreactive, hfirst, hsecond⟩ : (analyze c).reactive = ["n", "m"]
      ∧ Script.freeNames "n * k" = ["n", "k"]
      ∧ Script.freeNames "m + 1" = ["m"] := by decide +kernel
  obtain ⟨-, -, -, -, hupdated, hapart⟩ := refresh_guards_exact c (analyze c) default
  rw [hplaced] at hupdated hapart
  have hmem : "exp_2" ∈ updatedHandles reactions ["n"] :=
    (hupdated ⟨"e0", "n * k"⟩ "exp_2" (by simp) ["n"]).1.mpr
      ⟨"n", by simp [hfirst], by simp [hreactive], by simp⟩
  have hdisjoint : (Script.freeNames "n * k").Disjoint (Script.freeNames "m + 1") := by
    simp [hfirst, hsecond]
  refine ⟨hmem, fun hmem' => ?_⟩
  exact hapart ⟨"e0", "n * k"⟩ "exp_2" ⟨"e1", "m + 1"⟩ "exp_3" (by simp) (by simp) hdisjoint "n"
    ⟨hmem, hmem'⟩

end Refresh

end Reactive
