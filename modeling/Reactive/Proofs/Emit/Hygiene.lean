/-
  Names that the compiler introduces, and names of the component.

  The compiler introduces the handles, the name of the lifecycle and the parameters of its methods.
  It takes no steps to keep them apart from the names of the component. Main statement: what follows
  all the same. Code of the component refers to what it would refer to if the component alone
  declared names, unless a name that it does not declare itself is one of those introduced around
  its place. A notification reaches the lifecycle, unless the component declares a variable of this
  name around its place. The variables of the compiled component are different from each other and
  from those of the script, unless a handle is a name of the component.
-/
import Reactive.Compile
import Reactive.Proofs.Emit.Forest
import Reactive.Proofs.Emit.Function
import Reactive.Proofs.Facts.Consistency
import Reactive.Proofs.Notify.Binders

namespace Reactive.Emit

open Script

/-! ## Introduced names -/

/-- The names that the compiler introduces are different from each other. -/
theorem nodup_introduced (f : Facts) (t : Template) :
    ((markup f t).handles ++ [lifecycleName, targetName, changedName]).Nodup := by
  have hnumbered := numbered_handles f targetName 0 t.nodes
  rw [markup_eq_forest]
  refine List.nodup_append.mpr ⟨hnumbered.nodup, by decide, ?_⟩
  intro name hname other hother
  obtain ⟨stem, k, -, -, rfl⟩ := hnumbered.exists_number hname
  -- A handle has an underscore before its number, and the fixed names have none.
  have hplain : '_' ∉ other.toList := by
    simp only [List.mem_cons, List.not_mem_nil, or_false] at hother
    rcases hother with rfl | rfl | rfl <;> decide
  exact handle_ne hplain stem k

namespace Parts

/-- The names that the compiler introduces around the script. -/
def introduced (p : Parts) : List String := p.handles ++ [lifecycleName]

variable {p : Parts} {name : String}

/-- The function declares a name that is not introduced if the component does. -/
theorem mem_topNames_iff (h : name ∉ p.introduced) :
    name ∈ Tree.topNames (p.statements declaredTree)
      ↔ name ∈ Tree.topNames (p.statements fun _ => .absent) := by
  rw [mem_topNames_statements, mem_topNames_statements]
  refine or_congr_left ⟨?_, ?_⟩
  · rintro ⟨x, hx, hname⟩
    obtain rfl : name = x := by simpa using hname
    exact absurd hx h
  · rintro ⟨x, -, hname⟩
    exact absurd hname (by simp)

/-- A method declares a name other than its parameter if the component does. -/
theorem mem_methodNames_iff {m : Method} (h : name ≠ m.parameter) :
    name ∈ p.methodNames declaredTree m ↔ name ∈ p.methodNames (fun _ => .absent) m := by
  simp [methodNames, h]

/-! ## Code of the component -/

/-- The name refers at a place to what it would refer to if the component alone declared names. -/
def Keeps (p : Parts) (name : String) (place : List Nat) : Prop :=
  p.emitted.binder name place = p.own.binder name place

/-- In the script, names that are declared inside their statement or are not introduced keep what
they refer to. -/
theorem keeps_script {i : Nat} {t : Tree} (ht : p.script[i]? = some t) {path : List Nat}
    (h : t.binder name path = none → name ∉ p.introduced) :
    p.Keeps name (p.scriptPlace i ++ path) := by
  have hget := fun introduce => p.getElem?_script introduce ht
  rw [Keeps, emitted, own, binder_scriptPlace p _ name (hget _), binder_scriptPlace p _ name (hget _)]
  -- What is declared inside the statement is found first, in both functions.
  cases hinside : t.binder name path with
  | some place => rfl
  | none => simp only [mem_topNames_iff (h hinside)]

/-- In a method, names that are declared inside their item or are not introduced keep what they refer
to. -/
theorem keeps_item {m : Method} {j : Nat} {item : Item} (hitem : (p.items m)[j]? = some item)
    {path : List Nat}
    (h : item.tree.binder name path = none → name ∉ m.parameter :: p.introduced) :
    p.Keeps name (p.itemPlace m j ++ path) := by
  rw [Keeps, emitted, own, binder_itemPlace p _ name hitem, binder_itemPlace p _ name hitem]
  cases hinside : item.tree.binder name path with
  | some place => rfl
  | none =>
    obtain ⟨hparameter, hintroduced⟩ := not_or.mp (mt List.mem_cons.mpr (h hinside))
    simp only [mem_methodNames_iff hparameter, mem_topNames_iff hintroduced]

/-! ## Notifications -/

/-- At a place stands the name of the lifecycle. It refers to the lifecycle of the function, unless
the component declares a variable of this name around the place. -/
def Reaches (p : Parts) (place : List Nat) : Prop :=
  p.emitted.at? place = some (variableTree lifecycleName)
  ∧ p.emitted.binder lifecycleName place = (p.own.binder lifecycleName place).or (some [])

theorem mem_topNames_lifecycle (p : Parts) :
    lifecycleName ∈ Tree.topNames (p.statements declaredTree) := by
  refine (mem_topNames_statements ..).mpr (Or.inl ⟨lifecycleName, ?_, ?_⟩)
  · exact List.mem_append_right _ (List.mem_singleton_self _)
  · simp

theorem reaches_statement {i : Nat} {t : Tree}
    (hget : ∀ introduce, (p.script ++ [p.lifecycle introduce, Parts.result])[i]? = some t)
    {path : List Nat} (hat : t.at? path = some (variableTree lifecycleName)) :
    p.Reaches (p.scriptPlace i ++ path) := by
  refine ⟨?_, ?_⟩
  · rw [emitted, Tree.at?_append, at?_scriptPlace p _ (hget _)]
    exact hat
  · rw [emitted, own, binder_scriptPlace p _ _ (hget _), binder_scriptPlace p _ _ (hget _),
      if_pos p.mem_topNames_lifecycle, Option.or_assoc]
    congr 1
    split <;> rfl

theorem reaches_item {m : Method} {j : Nat} {item : Item} (hitem : (p.items m)[j]? = some item)
    {path : List Nat} (hat : item.tree.at? path = some (variableTree lifecycleName)) :
    p.Reaches (p.itemPlace m j ++ path) := by
  have hparameter : lifecycleName ≠ m.parameter := by cases m <;> decide
  refine ⟨?_, ?_⟩
  · rw [emitted, Tree.at?_append, at?_itemPlace p _ hitem]
    exact hat
  · rw [emitted, own, binder_itemPlace p _ _ hitem, binder_itemPlace p _ _ hitem,
      if_pos p.mem_topNames_lifecycle, Option.or_assoc, Option.or_assoc]
    simp only [mem_methodNames_iff hparameter]
    congr 2
    split <;> rfl

end Parts

/-- The notification about what a declaration writes starts with the name of the lifecycle. -/
theorem at?_notifications {d : Declaration} {t : Tree} (ht : t ∈ notifications d) :
    t.at? [0, 0, 0] = some (variableTree lifecycleName) := by
  unfold notifications at ht
  split at ht
  · exact absurd ht (by simp)
  · rw [List.mem_singleton.mp ht]
    rfl

theorem at?_calls_step {step : Step} {item : Item} (hitem : item ∈ step.items) {path : List Nat}
    (hpath : path ∈ item.calls) : item.tree.at? path = some (variableTree lifecycleName) := by
  cases step with
  | run d =>
    rcases List.mem_append.mp hitem with h | h
    · obtain ⟨t, -, rfl⟩ := List.mem_map.mp h
      exact absurd hpath (by simp)
    · obtain ⟨t, ht, rfl⟩ := List.mem_map.mp h
      rw [List.mem_singleton.mp hpath]
      exact at?_notifications ht
  | _ =>
    rw [List.mem_singleton.mp hitem] at hpath
    exact absurd hpath (by simp [Item.plain])

theorem at?_calls_reaction (reaction : Reaction) {path : List Nat}
    (hpath : path ∈ reaction.item.calls) :
    reaction.item.tree.at? path = some (variableTree lifecycleName) := by
  cases reaction with
  | updateText reads h code => exact absurd hpath (by simp [Reaction.item])
  | rerun d =>
    obtain ⟨⟨t, i⟩, hx, rfl⟩ := List.mem_map.mp hpath
    have hget : (notifications d)[i]? = some t := List.mem_zipIdx_iff_getElem?.mp hx
    show ((declarationTrees d ++ notifications d)[(declarationTrees d).length + i]?).bind
      (fun c => c.at? [0, 0, 0]) = _
    rw [List.getElem?_append_right (Nat.le_add_right _ _), Nat.add_sub_cancel_left, hget]
    exact at?_notifications (List.mem_of_getElem? hget)

/-- Wherever a method notifies, the name of the lifecycle stands. -/
theorem at?_calls {c : Component} {f : Facts} {o : Options} {m : Method} {item : Item}
    (hitem : item ∈ (parts c f o).items m) {path : List Nat} (hpath : path ∈ item.calls) :
    item.tree.at? path = some (variableTree lifecycleName) := by
  cases m with
  | construct | teardown =>
    obtain ⟨step, -, hstep⟩ := List.mem_flatMap.mp hitem
    exact at?_calls_step hstep hpath
  | refresh =>
    obtain ⟨reaction, -, rfl⟩ := List.mem_map.mp hitem
    exact at?_calls_reaction reaction hpath

/-! ## The names of a compiled component -/

/-- The code of the component in a method. -/
def methodCode (c : Component) (f : Facts) (o : Options) : Method → List Tree
  | .construct => (generate c f o).construct.flatMap Step.code
  | .refresh => (generate c f o).refresh.flatMap Reaction.code
  | .teardown => (generate c f o).teardown.flatMap Step.code

/-- The names of a compiled component, given the parts of its function. -/
structure Hygienic (c : Component) (f : Facts) (o : Options) (p : Parts) : Prop where
  /-- The names that the compiler introduces are different from each other. -/
  introduced_nodup : (p.handles ++ [lifecycleName, targetName, changedName]).Nodup
  /-- If no handle is a name of the component, the variables are different from each other and from
  the names at the root of the script. -/
  declarations : (∀ h ∈ p.handles, h ∉ f.scopes.root.names ∧ h ∉ f.hoisted) →
    (generate c f o).declarations.Nodup
    ∧ ∀ x ∈ (generate c f o).declarations, x ∉ f.scopes.root.names
  /-- An identifier of the script is found again in the rewritten script, and inside its statement it
  refers to the declaration that it referred to. If it refers to one there, or if its name is not
  introduced, it refers to what the component declares. -/
  script : ∀ i statement path name s,
    (ordinaryStatements (programTree c.scriptSource.toList).tree.children)[i]? = some statement →
    statement.at? path = some (.node (.identifier name) s []) →
    let moved := notifiedAddress f (o.policy.tracked f) ScopeTree.rootId statement
    ∃ rewritten, p.script[i]? = some rewritten
      ∧ rewritten.at? (moved path) = some (.node (.identifier name) s [])
      ∧ rewritten.binder name (moved path) = (statement.binder name path).map moved
      ∧ ((statement.binder name path = none → name ∉ p.introduced) →
        p.Keeps name (p.scriptPlace i ++ moved path))
  /-- The code in a method stands at the addresses of code in its items. -/
  pieces : ∀ m, (p.items m).flatMap Item.code = methodCode c f o m
  /-- An identifier in the code of a method refers to what the component declares, if it refers to
  something inside its item or if its name is neither introduced nor that of the parameter. -/
  methods : ∀ m j item place path name s, (p.items m)[j]? = some item →
    place ∈ item.pieces → place <+: path →
    item.tree.at? path = some (.node (.identifier name) s []) →
    (item.tree.binder name path = none → name ∉ m.parameter :: p.introduced) →
    p.Keeps name (p.itemPlace m j ++ path)
  /-- Behind every announced write of the script, the lifecycle is notified. -/
  announcements : ∀ i statement site,
    (ordinaryStatements (programTree c.scriptSource.toList).tree.children)[i]? = some statement →
    f.isSite (o.policy.tracked f) ScopeTree.rootId statement site = true →
    let moved := notifiedAddress f (o.policy.tracked f) ScopeTree.rootId statement
    p.Reaches (p.scriptPlace i ++ (moved site ++ [1, 0, 0]))
  /-- In every notification of a method, the lifecycle is notified. -/
  notifications : ∀ m j item path, (p.items m)[j]? = some item → path ∈ item.calls →
    p.Reaches (p.itemPlace m j ++ path)
  /-- The function returns the lifecycle. -/
  result : p.Reaches p.returnPlace

section

variable (c : Component) (f : Facts) (o : Options)

theorem nodup_declarations (hnodup : f.hoisted.Nodup)
    (hnew : f.scopes.root.names.Disjoint f.hoisted)
    (hhandles : ∀ h ∈ (markup f c.template).handles, h ∉ f.scopes.root.names ∧ h ∉ f.hoisted) :
    (generate c f o).declarations.Nodup
    ∧ ∀ x ∈ (generate c f o).declarations, x ∉ f.scopes.root.names := by
  have hnumbered := numbered_handles f targetName 0 c.template.nodes
  refine ⟨List.nodup_append.mpr ⟨hnumbered.nodup, hnodup, ?_⟩, ?_⟩
  · rintro x hx y hy rfl
    exact (hhandles x hx).2 hy
  · intro x hx hroot
    rcases List.mem_append.mp hx with hx | hx
    · exact (hhandles x hx).1 hroot
    · exact hnew hroot hx

theorem code_parts (m : Method) :
    ((parts c f o).items m).flatMap Item.code = methodCode c f o m := by
  have hsteps : ∀ steps : List Step,
      (steps.flatMap Step.items).flatMap Item.code = steps.flatMap Step.code := fun steps => by
    rw [List.flatMap_assoc]
    exact List.flatMap_congr fun step _ => code_items step
  cases m with
  | construct | teardown => exact hsteps _
  | refresh =>
    show (List.map Reaction.item _).flatMap Item.code = _
    rw [List.flatMap_map]
    exact List.flatMap_congr fun reaction _ => code_item reaction

/-- The statements of the script are announced each. -/
theorem getElem?_script_parts {i : Nat} {statement : Tree}
    (h : (ordinaryStatements (programTree c.scriptSource.toList).tree.children)[i]?
      = some statement) :
    (parts c f o).script[i]?
      = some (notifyTree f (o.policy.tracked f) statement (.start f.scopes)) := by
  show (List.map _ (ordinaryStatements _))[i]? = _
  rw [List.getElem?_map, h]
  rfl

/-- Behind a write that is announced stands the name of the lifecycle. -/
theorem at?_announced {tracked : List String} {statement : Tree} {site : List Nat}
    (h : f.isSite tracked ScopeTree.rootId statement site = true) :
    (notifyTree f tracked statement (.start f.scopes)).at?
      (notifiedAddress f tracked ScopeTree.rootId statement site ++ [1, 0, 0])
        = some (variableTree lifecycleName) := by
  cases he : statement.at? site with
  | none => exact absurd h (by simp [Facts.isSite, he])
  | some e =>
    have hnames : f.trackedWrites tracked (f.scopes.scopeAt ScopeTree.rootId statement site) e ≠ [] :=
      (isSite_nil _ e).mp (by simpa [Facts.isSite, he] using h)
    obtain ⟨there, htree, hcurrent, hat⟩ := at?_notifiedAddress f tracked he (.start f.scopes) rfl
    change there.current = f.scopes.scopeAt ScopeTree.rootId statement site at hcurrent
    rw [← hcurrent] at hnames
    obtain ⟨l, s, cs⟩ := e
    -- The write has become a sequence: the write itself, and behind it the notification.
    rw [notifyTree_node, notifiedNames_eq_trackedWrites htree] at hat
    dsimp only at hat
    rw [if_neg hnames] at hat
    rw [Tree.at?_append]
    exact (congrArg (·.bind fun u => u.at? [1, 0, 0]) hat).trans rfl

end

/-- The names of every compiled component. -/
theorem generated_names_hygienic (c : Component) (o : Options) :
    Hygienic c (analyze c) o (parts c (analyze c) o) where
  introduced_nodup := nodup_introduced (analyze c) c.template
  declarations := by
    have hlast := Progress.consistent_final c.scriptSource.toList c.statements
    exact nodup_declarations c (analyze c) o hlast.hoisted_nodup hlast.hoisted_new
  script := by
    intro i statement path name s hstatement hidentifier moved
    have hscript := getElem?_script_parts c (analyze c) o hstatement
    obtain ⟨there, -, -, hat⟩ := at?_notifiedAddress (analyze c) (o.policy.tracked (analyze c))
      hidentifier (.start (analyze c).scopes) rfl
    have hbinder := binder_notifyTree (analyze c) (o.policy.tracked (analyze c))
      hidentifier (.start (analyze c).scopes) rfl name
    -- A name that nothing inside the rewritten statement declares is declared by nothing inside the
    -- statement before.
    refine ⟨_, hscript, ?_, hbinder, fun h => Parts.keeps_script hscript fun hnone => h ?_⟩
    · rwa [notifyTree_of_not_isWrite _ _ rfl] at hat
    · exact Option.map_eq_none_iff.mp (hbinder.symm.trans hnone)
  pieces := code_parts c (analyze c) o
  methods := fun m j item place path name s hitem _ _ _ h => Parts.keeps_item hitem h
  announcements := by
    intro i statement site hstatement hsite moved
    have hscript := getElem?_script_parts c (analyze c) o hstatement
    exact Parts.reaches_statement (fun introduce => Parts.getElem?_script _ introduce hscript)
      (at?_announced (analyze c) hsite)
  notifications := fun m j item path hitem hpath =>
    Parts.reaches_item hitem (at?_calls (List.mem_of_getElem? hitem) hpath)
  result := Parts.reaches_statement (t := Parts.result) (fun introduce => by simp) rfl

/-- A tree is an identifier if its label says so and it has no parts. -/
theorem exists_identifier {found : Option Tree} {name : String}
    (h : found.map (fun t => (t.label, t.children.length)) = some (.identifier name, 0)) :
    ∃ s, found = some (.node (.identifier name) s []) := by
  obtain ⟨⟨l, s, cs⟩, rfl, heq⟩ := Option.map_eq_some_iff.mp h
  obtain ⟨rfl, hlength⟩ := Prod.mk.inj heq
  obtain rfl : cs = [] := List.length_eq_zero_iff.mp hlength
  exact ⟨s, rfl⟩

/-- A parameter of the component with the name of a parameter that is introduced: in the markup, `n`
is the variable of the script, in the function, `target` is the parameter of the function, and the
notification behind the write there reaches the lifecycle. -/
theorem generated_names_hygienic_counter :
    let c : Component := ⟨"", ⟨[.expression ⟨"expr_0", "n"⟩], []⟩,
      some ⟨"let n = 0; function f(target) \x7b n = target; \x7d", []⟩⟩
    let p := parts c (analyze c) {}
    (generate c (analyze c) {}).declarations.Nodup
    ∧ p.emitted.binder "n" (p.itemPlace .construct 0 ++ [0, 1, 1]) = some []
    ∧ p.emitted.binder "target" (p.scriptPlace 1 ++ [2, 0, 0, 0, 1]) = some (p.scriptPlace 1)
    ∧ p.emitted.binder lifecycleName (p.scriptPlace 1 ++ [2, 0, 0, 1, 0, 0]) = some [] := by
  intro c p
  let f := analyze c
  let statements := ordinaryStatements (programTree c.scriptSource.toList).tree.children
  let look (path : List Nat) (t : Tree) := (t.at? path).map fun e => (e.label, e.children.length)
  have h := generated_names_hygienic c {}
  -- What the theorem asks of the component and of the three places, computed at once.
  obtain ⟨hhandles, ⟨hpiece, hnames⟩, ⟨hinner, hmoved, hbound⟩, hown, hownTarget, hownCall⟩ :
      (∀ x ∈ p.handles, x ∉ f.scopes.root.names ∧ x ∉ f.hoisted)
      ∧ ((p.items .construct)[0]?.map (fun item => (item.pieces, look [0, 1, 1] item.tree))
          = some ([[0, 1, 1]], some (.identifier "n", 0))
        ∧ "n" ∉ Method.construct.parameter :: p.introduced)
      ∧ (statements[1]?.map (fun t => (look [2, 0, 0, 1] t,
            f.isSite f.reactive ScopeTree.rootId t [2, 0, 0]))
          = some (some (.identifier "target", 0), true)
        ∧ statements[1]?.map (fun t => (notifiedAddress f f.reactive ScopeTree.rootId t [2, 0, 0, 1],
            notifiedAddress f f.reactive ScopeTree.rootId t [2, 0, 0]))
          = some ([2, 0, 0, 0, 1], [2, 0, 0])
        ∧ statements[1]?.map (·.binder "target" [2, 0, 0, 1]) = some (some []))
      ∧ p.own.binder "n" (p.itemPlace .construct 0 ++ [0, 1, 1]) = some []
      ∧ p.own.binder "target" (p.scriptPlace 1 ++ [2, 0, 0, 0, 1]) = some (p.scriptPlace 1)
      ∧ p.own.binder lifecycleName (p.scriptPlace 1 ++ [2, 0, 0, 1, 0, 0]) = none := by
    decide +kernel
  obtain ⟨item, hitem, hlook⟩ := Option.map_eq_some_iff.mp hpiece
  obtain ⟨hpieces, hlook⟩ := Prod.mk.inj hlook
  obtain ⟨s, hidentifier⟩ := exists_identifier hlook
  obtain ⟨t, ht, hlook⟩ := Option.map_eq_some_iff.mp hinner
  rw [show statements[1]? = some t from ht, Option.map_some, Option.some_inj] at hmoved hbound
  obtain ⟨hlook, hsite⟩ := Prod.mk.inj hlook
  obtain ⟨hmoved, hmovedSite⟩ := Prod.mk.inj hmoved
  obtain ⟨s', hidentifier'⟩ := exists_identifier hlook
  refine ⟨(h.declarations hhandles).1, ?_, ?_, ?_⟩
  · have hkeeps := h.methods .construct 0 item [0, 1, 1] [0, 1, 1] "n" s hitem
      (by rw [hpieces]; exact List.mem_singleton_self _) (List.prefix_refl _) hidentifier
      (fun _ => hnames)
    exact hkeeps.trans hown
  · obtain ⟨_, -, -, -, hkeeps⟩ := h.script 1 t [2, 0, 0, 1] "target" s' ht hidentifier'
    have hkeeps := hkeeps fun hnone => absurd (hbound.symm.trans hnone) (by simp)
    change p.Keeps "target"
      (p.scriptPlace 1 ++ notifiedAddress f f.reactive ScopeTree.rootId t [2, 0, 0, 1]) at hkeeps
    rw [hmoved] at hkeeps
    exact hkeeps.trans hownTarget
  · have hreaches := h.announcements 1 t [2, 0, 0] ht hsite
    change p.Reaches
      (p.scriptPlace 1 ++ (notifiedAddress f f.reactive ScopeTree.rootId t [2, 0, 0] ++ [1, 0, 0]))
      at hreaches
    rw [hmovedSite] at hreaches
    exact hreaches.2.trans (congrArg (·.or (some [])) hownCall)

/-- Names are captured and collide without these conditions. A variable `target` of the script is
hidden in the markup by the parameter of the method. A variable of the script and a hoisted name can
each be a handle. A parameter `lifecycle` of the script gets the notification that is meant for the
lifecycle. -/
theorem generated_names_collide :
    (∃ r ∈ (compile "<script>let target = 1;</script>\x7btarget\x7d" {}).toOption,
      let p := parts r.component r.facts {}
      let place := p.itemPlace .construct 0 ++ [0, 1, 1]
      (p.emitted.at? place).map Tree.label = some (.identifier "target")
      ∧ p.own.binder "target" place = some []
      ∧ p.emitted.binder "target" place = some (p.methodPlace .construct))
    ∧ (∃ r ∈ (compile "<script>let txt_0 = 1;</script>hello" {}).toOption,
      r.listing.declarations = ["txt_0"] ∧ r.facts.scopes.root.names = ["txt_0"])
    ∧ (∃ r ∈ (compile "<script>$: txt_0 = 1;</script>hello" {}).toOption,
      r.listing.declarations = ["txt_0", "txt_0"])
    ∧ ∃ r ∈ (compile "<script>let n = 1; function f(lifecycle) \x7b n++; \x7d</script>" {}).toOption,
      let p := parts r.component r.facts {}
      let place := p.scriptPlace 1 ++ [2, 0, 0, 1, 0, 0]
      (p.emitted.at? place).map Tree.label = some (.identifier lifecycleName)
      ∧ p.emitted.binder lifecycleName place = some (p.scriptPlace 1) := by
  decide +kernel

end Reactive.Emit
