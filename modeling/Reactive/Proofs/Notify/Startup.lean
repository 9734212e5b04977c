/-
  Notifications and the start of a component.

  The script of a component runs before its lifecycle exists. A notification that is inserted
  stays inside the functions and arrows that its write stands in, and comes inside none that its
  write is outside of. So a script whose announced writes are all inside functions or arrows runs
  at the start as it would without notifications, whatever those do. A write outside all of them
  runs at the start, and its notification with it. Running stops at functions here: a function that
  the script calls while it starts (`inc();`) runs its notifications then too, and nothing is said
  about that.
-/
import Reactive.Compile
import Reactive.Proofs.Notify.Insertions
import Reactive.Proofs.Script.Evaluation

namespace Reactive

open Script

namespace Script

/-! ## Functions -/

/-- Functions and arrows, whose parts wait for a call. -/
def Label.isFunction : Label → Bool
  | .function .. | .arrow .. => true
  | _ => false

/-- The place at an address stands inside a function or an arrow. -/
def Tree.insideFunction : Tree → List Nat → Bool
  | _, [] => false
  | .node l _ cs, i :: path => l.isFunction || cs[i]?.any (·.insideFunction path)

@[simp] theorem Tree.insideFunction_nil (t : Tree) : t.insideFunction [] = false := by
  cases t; rfl

theorem Tree.insideFunction_cons {cs : List Tree} {i : Nat} {c : Tree} (h : cs[i]? = some c)
    (l : Label) (s : Span) (path : List Nat) :
    (Tree.node l s cs).insideFunction (i :: path) = (l.isFunction || c.insideFunction path) := by
  rw [insideFunction, h, Option.any_some]

namespace Host

/-- Evaluating a function or an arrow does not run its parts: only label and span count. -/
def Defers (H : Host) : Prop :=
  ∀ l s parts parts', l.isFunction = true → parts.length = parts'.length →
    H.perform l s parts = H.perform l s parts'

/-- In a host that does not run them, what the parts of a function mean does not matter. -/
theorem Defers.node_eq {H : Host} (hH : H.Defers) {l : Label} (hl : l.isFunction = true) (s : Span)
    {parts parts' : List H.Action} (hlength : parts.length = parts'.length) :
    H.node l s parts = H.node l s parts' := by
  have hflow : l.flow = .hosted l.drops := by cases l <;> first | rfl | cases hl
  unfold node
  rw [hflow]
  exact hH _ _ _ _ hl (by rw [List.length_mapIdx, List.length_mapIdx, hlength])

end Host

end Script

section

variable (f : Facts) (tracked : List String)

/-! ## Where notifications stand -/

/-- A notification is inside a function exactly if its write was. -/
theorem insideFunction_of_mem_insertions (t : Tree) (cursor : ScopeCursor)
    (hc : cursor.tree = f.scopes) {site path : List Nat}
    (hmem : (site, path) ∈ insertions f tracked t cursor.current) :
    (notifyTree f tracked t cursor).insideFunction path = t.insideFunction site := by
  induction t using Tree.ind generalizing cursor site path with
  | node l s cs ih =>
    -- Below a node, the walk and the list of insertions are in the same scope.
    have hscope : (cursor.inside l s).current = f.scopes.scopeInside cursor.current l s := by
      rw [ScopeCursor.current_inside, hc]
    have hparts : ∀ {site path}, (site, path) ∈ insertionsBelow f tracked l s cs cursor.current →
        (announcedParts f tracked l s cs cursor).insideFunction path
          = (Script.Tree.node l s cs).insideFunction site := by
      intro site path hmem
      obtain ⟨i, c, hget, hmem⟩ := mem_gather.mp hmem
      obtain ⟨⟨site', path'⟩, hinner, heq⟩ := List.mem_map.mp hmem
      obtain ⟨rfl, rfl⟩ := Prod.mk.inj heq
      rw [← hscope] at hinner
      have hget' : (cs.map fun c => notifyTree f tracked c (cursor.inside l s))[i]?
          = some (notifyTree f tracked c (cursor.inside l s)) := by
        rw [List.getElem?_map, hget]
        rfl
      rw [announcedParts, Tree.insideFunction_cons hget', Tree.insideFunction_cons hget,
        ih c (List.mem_of_getElem? hget) _ (by simpa using hc) hinner]
    rw [insertions_node] at hmem
    rw [notifyTree_node, notifiedNames_eq_trackedWrites hc]
    by_cases hnames : f.trackedWrites tracked cursor.current (.node l s cs) = []
    · rw [if_pos hnames] at hmem
      rw [if_pos hnames]
      exact hparts hmem
    · rw [if_neg hnames] at hmem
      rw [if_neg hnames]
      rcases List.mem_cons.mp hmem with heq | hmem
      · obtain ⟨rfl, rfl⟩ := Prod.mk.inj heq
        rw [Tree.insideFunction_nil, Tree.insideFunction_nil]
      · obtain ⟨⟨site', path'⟩, hinner, heq⟩ := List.mem_map.mp hmem
        obtain ⟨rfl, rfl⟩ := Prod.mk.inj heq
        -- The sequence around the write is no function.
        rw [announced, Tree.insideFunction_cons (c := announcedParts f tracked l s cs cursor) rfl]
        exact hparts hinner

/-! ## Running at the start -/

/-- With all announced writes inside functions, evaluating a tree without running functions is the
same with and without notifications. -/
theorem eval_notifyTree_of_insideFunction {H : Host} (hH : H.Defers) (t : Tree)
    (cursor : ScopeCursor) (hc : cursor.tree = f.scopes)
    (hsites : ∀ site, f.isSite tracked cursor.current t site = true →
      t.insideFunction site = true) :
    H.eval (notifyTree f tracked t cursor) = H.eval t := by
  induction t using Tree.ind generalizing cursor with
  | node l s cs ih =>
    -- The root of a tree is inside nothing, so it is not announced itself.
    have hnames : f.trackedWrites tracked cursor.current (.node l s cs) = [] := by
      by_contra hne
      have hroot := hsites [] ((isSite_nil _ _).mpr hne)
      rw [Tree.insideFunction_nil] at hroot
      cases hroot
    rw [notifyTree_node, notifiedNames_eq_trackedWrites hc, if_pos hnames, announcedParts,
      Host.eval_node, Host.eval_node, List.map_map]
    by_cases hl : l.isFunction = true
    · exact hH.node_eq hl s (by rw [List.length_map, List.length_map])
    · -- A site below a node that is no function has its function further below.
      congr 1
      refine List.map_congr_left fun c hmem => ?_
      obtain ⟨i, hget⟩ := List.mem_iff_getElem?.mp hmem
      refine ih c hmem (cursor.inside l s) (by simpa using hc) fun site hsite => ?_
      have hinside := hsites (i :: site) (by
        rw [isSite_cons hget, ← hc, ← ScopeCursor.current_inside]
        exact hsite)
      rw [Tree.insideFunction_cons hget, Bool.or_eq_true] at hinside
      exact hinside.resolve_left hl

end

/-! ## Components -/

/-- The script of a compiled component stands before its lifecycle. The notifications in it are
    inside functions or arrows exactly where their writes are. If all announced writes are, then
    evaluating the script without running functions is the same as without any notifications,
    whatever a notification does. A function that is called at the start (`inc();`) is not run by
    such an evaluation. -/
theorem notifications_wait_in_functions (c : Component) (o : Options) :
    let f := analyze c
    let program := programTree c.scriptSource.toList
    let tree := Script.Tree.node program.tree.label program.tree.span
      (ordinaryStatements program.tree.children)
    let output := notifyProgram f o.policy program
    let sites := tree.addresses.filter (f.isSite (o.policy.tracked f) ScopeTree.rootId tree)
    (∃ before after : List String, (compileComponent c o).listing.body
      = before ++ Emit.Listing.linesAt 1 (notifyScript c.scriptSource f o.policy)
        ++ Emit.Listing.linesAt 1 ("const " ++ lifecycleName ++ " = \x7b") ++ after)
    ∧ (Text.blankString c.scriptSource = false →
      notifyScript c.scriptSource f o.policy = String.ofList output.text)
    ∧ (∃ inserted : List (List Nat), inserted.length = sites.length
      ∧ (output.tree.collapse fun path => decide (path ∈ inserted)) = tree
      ∧ ∀ site path, (site, path) ∈ sites.zip inserted →
        (∃ write names, output.tree.at? path = some (announced write names))
        ∧ output.tree.insideFunction path = tree.insideFunction site)
    ∧ ((∀ site ∈ sites, tree.insideFunction site = true) →
      ∀ H : Host, H.Defers → H.eval output.tree = H.eval tree) := by
  intro f program tree output sites
  have houtput : output.tree = notifyTree f (o.policy.tracked f) tree (.start f.scopes) := by
    rw [tree_notifyProgram]
    show notifyTree f _ (.node .program _ _) _ = notifyTree f _ (.node program.tree.label _ _) _
    rw [label_programTree]
  let pairs := insertions f (o.policy.tracked f) tree ScopeTree.rootId
  have hsites : pairs.map (·.1) = sites := map_fst_insertions f (o.policy.tracked f) tree _
  refine ⟨?_, ?_, ⟨pairs.map (·.2), ?_, ?_, ?_⟩, ?_⟩
  · let l := (compileComponent c o).listing
    refine ⟨l.declarations.flatMap fun d => Emit.Listing.linesAt 1 ("let " ++ d ++ ";"),
      Emit.Listing.method "construct" Emit.targetName l.construct
        ++ Emit.Listing.method "refresh" Emit.changedName l.refresh
        ++ Emit.Listing.method "teardown" Emit.targetName l.teardown
        ++ Emit.Listing.linesAt 1 "\x7d;"
        ++ Emit.Listing.linesAt 1 ("return " ++ lifecycleName ++ ";"), ?_⟩
    rw [Emit.Listing.body]
    simp only [List.append_assoc]
    rfl
  · intro hblank
    rw [notifyScript, hblank]
    rfl
  · rw [← hsites, List.length_map, List.length_map]
  · rw [houtput]
    exact collapse_notifyTree f _ tree _ rfl _ fun path => decide_eq_true_iff
  · intro site path hmem
    rw [← List.zip_of_prod hsites rfl] at hmem
    rw [houtput]
    obtain ⟨e, write, -, -, -, hat⟩ := at?_insertions f _ tree (.start f.scopes) rfl hmem
    exact ⟨⟨write, _, hat⟩, insideFunction_of_mem_insertions f _ tree (.start f.scopes) rfl hmem⟩
  · intro hinside H hH
    rw [houtput]
    refine eval_notifyTree_of_insideFunction f _ hH tree _ rfl fun site hsite => hinside site ?_
    refine List.mem_filter.mpr ⟨Tree.mem_addresses.mpr ?_, hsite⟩
    cases he : tree.at? site with
    | none => simp [Facts.isSite, he] at hsite
    | some e => exact ⟨e, rfl⟩

/-! ## A host that stops at calls -/

namespace Script

/-- No store, one value, no places, one reason to stop. -/
def Carrier.bare : Carrier :=
  { Store := fun _ => Unit
    Value := fun _ => Unit
    Place := fun _ => Empty
    Stop := fun _ => Unit }

/-- The parts of a production in order, each for its effect. -/
def Carrier.bare.runAll (parts : List Carrier.bare.Action) : Carrier.bare.Action := fun k => do
  parts.forM fun a => discard (a k)
  pure (.value ())

/-- A host that stops at the first call. Functions and arrows are values, all else runs its parts
in order. -/
def Host.untilCall : Host :=
  { Carrier.bare with
    undefined := fun _ => ()
    load := fun p => nomatch p
    truthy := fun _ => true
    nullish := fun _ => false
    perform := fun l _ parts =>
      if l.isFunction then fun _ => pure (.value ())
      else match l with
        | .call .. => fun _ => throw ()
        | _ => Carrier.bare.runAll parts }

theorem Host.defers_untilCall : Host.untilCall.Defers := fun l s parts parts' hl _ => by
  cases l with
  | function => rfl
  | arrow => rfl
  | _ => cases hl

/-- Evaluating a tree reaches a call outside all functions. -/
def Tree.reachesCall (t : Tree) : Bool :=
  match (Host.untilCall.eval t 0 ()).1 with
  | .ok _ => false
  | .error _ => true

end Script

/-- A component that writes in a function and in an arrow only: both notifications wait there, and
no call is reached at the start. -/
theorem notifications_wait_in_handlers :
    let c : Component := ⟨"", ⟨[], []⟩,
      some ⟨"let n = 0; function f() \x7b n++; \x7d const g = () => \x7b n = 2; \x7d;", []⟩⟩
    let f := analyze c
    let program := programTree c.scriptSource.toList
    let tree := Script.Tree.node program.tree.label program.tree.span
      (ordinaryStatements program.tree.children)
    let output := notifyProgram f .reactive program
    let sites := tree.addresses.filter (f.isSite f.reactive ScopeTree.rootId tree)
    sites.length = 2
      ∧ (∀ site ∈ sites, tree.insideFunction site = true)
      ∧ (∃ path write names, output.tree.at? path = some (announced write names)
        ∧ output.tree.insideFunction path = true)
      ∧ Host.untilCall.eval output.tree = Host.untilCall.eval tree
      ∧ output.tree.reachesCall = false := by
  intro c f program tree output sites
  obtain ⟨hlength, hinside, hcalls⟩ : sites.length = 2
      ∧ (∀ site ∈ sites, tree.insideFunction site = true)
      ∧ tree.reachesCall = false := by decide +kernel
  obtain ⟨-, -, ⟨inserted, hinserted, -, hpairs⟩, heval⟩ := notifications_wait_in_functions c {}
  have hsame : Host.untilCall.eval output.tree = Host.untilCall.eval tree :=
    heval hinside _ Host.defers_untilCall
  refine ⟨hlength, hinside, ?_, hsame, ?_⟩
  · obtain ⟨site, rest, hsites⟩ := List.exists_cons_of_length_pos (l := sites) (by omega)
    obtain ⟨path, paths, rfl⟩ := List.exists_cons_of_length_pos (l := inserted) (by
      rw [hinserted]
      show 0 < sites.length
      omega)
    have hmem : (site, path) ∈ sites.zip (path :: paths) := by
      rw [hsites]
      exact List.mem_cons_self
    obtain ⟨⟨write, names, hat⟩, heq⟩ := hpairs site path hmem
    refine ⟨path, write, names, hat, ?_⟩
    rw [hinside site (by rw [hsites]; exact List.mem_cons_self)] at heq
    exact heq
  · rw [Tree.reachesCall, hsame]
    exact hcalls

/-- A write at the top of the script is announced there: a call is reached before the lifecycle
exists, where the script itself makes none. -/
theorem notification_at_startup :
    ∃ r ∈ (compile "<script>let x = 0; x++;</script>" {}).toOption,
      let program := programTree r.component.scriptSource.toList
      let output := notifyProgram r.facts .reactive program
      (output.tree.at? [1, 0]).map (fun e => (e.label, e.children.map (·.label)))
          = some (.sequence, [.update .increment false, .call false false])
        ∧ output.tree.insideFunction [1, 0] = false
        ∧ program.tree.reachesCall = false
        ∧ output.tree.reachesCall = true
        ∧ r.listing.body.take 3 = ["  let x = 0;",
          "  x++, lifecycle.refresh([\"x\"]);", "  const lifecycle = \x7b"] := by
  decide +kernel

end Reactive
