/-
  Forests in a document.

  Building the nodes of a template below a node numbers the new nodes without gaps and changes
  nothing else, apart from the children of that node. The steps that take the nodes away run in
  the opposite order of the walk, so that each finds the document as the step that it undoes
  left it. The invariant of the induction over a forest therefore has two halves: what building
  leaves behind, and what taking away does to every document that still holds it.
-/
import Reactive.Proofs.Document.Attach
import Reactive.Proofs.Emit.Forest

namespace Reactive.Document

open Emit

/-! ## What a document shows -/

/-- What the node for a node of a template is. -/
def content : Node → Content
  | .element tag _ _ => .element tag
  | .text value => .text (.text value)
  | .expression e => .text (.code (Script.printExpression e.code))

mutual

/-- A numbered node below `p` shows a node of a template. -/
def Shows (d : Dom) (p : Nat) : Node → Nat → Prop
  | .element tag attributes children, i =>
    (d.node i).parent = some p ∧ (d.node i).content = .element tag
      ∧ (d.node i).listeners.Perm (attributes.flatMap Attribute.listeners)
      ∧ ShowsForest d i children (d.node i).children
  | .text value, i => (d.node i).parent = some p ∧ (d.node i).content = .text (.text value)
      ∧ (d.node i).listeners = [] ∧ (d.node i).children = []
  | .expression e, i => (d.node i).parent = some p
      ∧ (d.node i).content = .text (.code (Script.printExpression e.code))
      ∧ (d.node i).listeners = [] ∧ (d.node i).children = []

/-- Numbered nodes below `p`, all different, show the nodes of a forest one by one. -/
def ShowsForest (d : Dom) (p : Nat) : List Node → List Nat → Prop
  | [], [] => True
  | n :: nodes, i :: roots => Shows d p n i ∧ i ∉ roots ∧ ShowsForest d p nodes roots
  | _, _ => False

end

/-- Every kind of node is shown in the same way. -/
theorem shows_iff (d : Dom) (p : Nat) (node : Node) (i : Nat) :
    Shows d p node i ↔ (d.node i).parent = some p ∧ (d.node i).content = content node
      ∧ (d.node i).listeners.Perm (node.attributes.flatMap Attribute.listeners)
      ∧ ShowsForest d i node.children (d.node i).children := by
  have hleaf : ShowsForest d i [] (d.node i).children ↔ (d.node i).children = [] := by
    cases (d.node i).children <;> simp [ShowsForest]
  cases node with
  | element tag attributes children =>
    rw [Shows]
    rfl
  | text value => simp [Shows, content, Node.attributes, Node.children, hleaf]
  | expression e => simp [Shows, content, Node.attributes, Node.children, hleaf]

/-! ## The invariant -/

/-- A document in which nodes can be built below the node that a variable holds. -/
structure Ready (parent : String) (p : Nat) (d : Dom) : Prop where
  handle : d.handle parent = some p
  exists_parent : p < d.size
  parents : d.ParentsExist

/-- A document that still holds what was built between `d` and `d'` below a node, behind the
children that were there before. -/
structure Standing (e : Emission) (parent : String) (p : Nat) (d d' : Dom)
    (kept roots : List Nat) (x : Dom) : Prop where
  nodes : Dom.SameNodes d.size d'.size d' x
  handles : ∀ name ∈ e.handles, x.handle name = d'.handle name
  parent : x.handle parent = some p
  children : (x.node p).children = kept ++ roots
  kept_lt : ∀ i ∈ kept, i < d.size

/-- What was built between two numbers has been taken away. -/
structure Undone (e : Emission) (p : Nat) (low high : Nat) (kept : List Nat) (x y : Dom) :
    Prop where
  run : Dom.run e.remove.reverse x = some y
  careful : Dom.Along Dom.Careful e.remove.reverse x
  size_eq : y.size = x.size
  handle_eq : y.handle = x.handle
  parent_eq : y.node p = (x.node p).withChildren kept
  node_eq : ∀ i, i < low ∨ high ≤ i → i ≠ p → y.node i = x.node i
  bare : ∀ i, low ≤ i → i < high → y.node i = (x.node i).bare

/-- The nodes of a forest have been built below a node. -/
structure Laid (e : Emission) (parent : String) (p : Nat) (nodes : List Node) (d d' : Dom)
    (roots : List Nat) : Prop where
  run : Dom.run e.build d = some d'
  size_le : d.size ≤ d'.size
  node_eq : ∀ i < d.size, i ≠ p → d'.node i = d.node i
  parent_eq : d'.node p = (d.node p).withChildren ((d.node p).children ++ roots)
  handle_eq : ∀ name, name ∉ e.handles → d'.handle name = d.handle name
  parents : d'.ParentsExist
  roots_new : ∀ r ∈ roots, d.size ≤ r ∧ r < d'.size
  shows : ∀ x, Dom.SameNodes d.size d'.size d' x → ShowsForest x p nodes roots
  undo : ∀ kept x, Standing e parent p d d' kept roots x →
    ∃ y, Undone e p d.size d'.size kept x y

theorem laid_nil {parent : String} {p : Nat} {d : Dom} (h : Ready parent p d) :
    Laid .none parent p [] d d [] where
  run := rfl
  size_le := Nat.le_refl _
  node_eq _ _ _ := rfl
  parent_eq := by simp [DomNode.withChildren]
  handle_eq _ _ := rfl
  parents := h.parents
  roots_new _ hr := absurd hr (by simp)
  shows _ _ := by simp [ShowsForest]
  undo kept x hx := by
    have hkept : (x.node p).children = kept := by rw [hx.children, List.append_nil]
    refine ⟨x, rfl, trivial, rfl, rfl, ?_, fun _ _ _ => rfl, ?_⟩
    · rw [← hkept]
      rfl
    · intro i hlow hhigh
      omega

/-- Once nodes have been built, more can be built behind them. -/
theorem Laid.ready {e : Emission} {parent : String} {p : Nat} {nodes : List Node} {d d' : Dom}
    {roots : List Nat} (h : Laid e parent p nodes d d' roots) (hd : Ready parent p d)
    (hparent : parent ∉ e.handles) : Ready parent p d' where
  handle := by rw [h.handle_eq parent hparent, hd.handle]
  exists_parent := Nat.lt_of_lt_of_le hd.exists_parent h.size_le
  parents := h.parents

/-- Taking away what was built last, then what was built before it. -/
theorem Undone.append {a b : Emission} {p low mid high : Nat} {kept middle : List Nat}
    {x y z : Dom} (hb : Undone b p mid high middle x y) (ha : Undone a p low mid kept y z)
    (hp : p < low) (hlow : low ≤ mid) (hmid : mid ≤ high) :
    Undone (a.append b) p low high kept x z where
  run := by
    rw [remove_append, List.reverse_append, Dom.run_append hb.run]
    exact ha.run
  careful := by
    rw [remove_append, List.reverse_append]
    exact Dom.along_append hb.run hb.careful ha.careful
  size_eq := by rw [ha.size_eq, hb.size_eq]
  handle_eq := by rw [ha.handle_eq, hb.handle_eq]
  parent_eq := by
    rw [ha.parent_eq, hb.parent_eq]
    rfl
  node_eq i hi hne := by
    rw [ha.node_eq i (by omega) hne, hb.node_eq i (by omega) hne]
  bare i hi hi' := by
    by_cases h : i < mid
    · rw [ha.bare i hi h, hb.node_eq i (Or.inl h) (by omega)]
    · rw [ha.node_eq i (by omega) (by omega), hb.bare i (by omega) hi']

/-- Building a node and then a forest behind it. -/
theorem Laid.append {a b : Emission} {parent : String} {p : Nat} {n : Node} {nodes : List Node}
    {d d' d'' : Dom} {r : Nat} {roots : List Nat} (ha : Laid a parent p [n] d d' [r])
    (hb : Laid b parent p nodes d' d'' roots) (hd : Ready parent p d)
    (hfresh : ∀ name ∈ a.handles, name ∉ b.handles) :
    Laid (a.append b) parent p (n :: nodes) d d'' (r :: roots) := by
  have hp := hd.exists_parent
  have hsize := ha.size_le
  -- Building the forest leaves the nodes of the first one alone.
  have hkeep : ∀ i, d.size ≤ i → i < d'.size → d''.node i = d'.node i := fun i hi hi' =>
    hb.node_eq i hi' (by omega)
  refine ⟨?_, Nat.le_trans ha.size_le hb.size_le, ?_, ?_, ?_, hb.parents, ?_, ?_, ?_⟩
  · rw [build_append, Dom.run_append ha.run]
    exact hb.run
  · intro i hi hne
    rw [hb.node_eq i (by omega) hne, ha.node_eq i hi hne]
  · rw [hb.parent_eq, ha.parent_eq]
    simp [DomNode.withChildren]
  · intro name hname
    rw [handles_append, List.mem_append, not_or] at hname
    rw [hb.handle_eq name hname.2, ha.handle_eq name hname.1]
  · intro i hi
    rcases List.mem_cons.mp hi with rfl | hi
    · have := ha.roots_new i (by simp)
      exact ⟨this.1, Nat.lt_of_lt_of_le this.2 hb.size_le⟩
    · have := hb.roots_new i hi
      exact ⟨Nat.le_trans ha.size_le this.1, this.2⟩
  · intro x hx
    have hfirst := ha.shows x fun i hi hi' => by
      rw [hx i hi (Nat.lt_of_lt_of_le hi' hb.size_le), hkeep i hi hi']
    have hrest := hb.shows x fun i hi hi' => hx i (by omega) hi'
    have hnew : r ∉ roots := fun hr => by
      have := ha.roots_new r (by simp)
      have := hb.roots_new r hr
      omega
    rw [ShowsForest] at hfirst ⊢
    exact ⟨hfirst.1, hnew, hrest⟩
  · intro kept x hx
    -- The forest goes first; it stands behind the first node.
    obtain ⟨y, hy⟩ := hb.undo (kept ++ [r]) x
      ⟨fun i hi hi' => hx.nodes i (by omega) hi',
        fun name hname => hx.handles name (List.mem_append_right _ hname), hx.parent,
        by rw [hx.children]; simp, by
          intro i hi
          rcases List.mem_append.mp hi with hi | hi
          · exact Nat.lt_of_lt_of_le (hx.kept_lt i hi) ha.size_le
          · exact (ha.roots_new i hi).2⟩
    obtain ⟨z, hz⟩ := ha.undo kept y
      ⟨fun i hi hi' => by
          rw [hy.node_eq i (Or.inl hi') (by omega),
            hx.nodes i hi (Nat.lt_of_lt_of_le hi' hb.size_le), hkeep i hi hi'],
        fun name hname => by
          rw [hy.handle_eq, hx.handles name (List.mem_append_left _ hname),
            hb.handle_eq name (hfresh name hname)],
        by rw [hy.handle_eq]; exact hx.parent,
        by rw [hy.parent_eq]; rfl, hx.kept_lt⟩
    exact ⟨z, hy.append hz hp ha.size_le hb.size_le⟩

/-! ## One node -/

theorem step_creation (d : Dom) (h : String) (node : Node) :
    d.step (creation h node) = some (d.create h (content node)) := by
  cases node <;> rfl

/-- A node has been created and given its attributes, and nothing is below it yet. -/
structure Created (node : Node) (parent h : String) (p : Nat) (d c : Dom) : Prop where
  run : Dom.run (creation h node :: (node.attributes.map (attributeSteps h)).flatMap (·.1)) d
    = some c
  size_eq : c.size = d.size + 1
  ready : Ready h d.size c
  parent : c.handle parent = some p
  handle_eq : ∀ name, name ≠ h → c.handle name = d.handle name
  node_eq : ∀ i < d.size, c.node i = d.node i
  content : (c.node d.size).content = content node
  free : (c.node d.size).parent = none
  childless : (c.node d.size).children = []
  listeners : (c.node d.size).listeners = (node.attributes.flatMap Attribute.listeners).reverse

theorem exists_created {parent : String} {p : Nat} {d : Dom} (hd : Ready parent p d) {h : String}
    (hh : parent ≠ h) (node : Node) : ∃ c, Created node parent h p d c := by
  -- The new node has the number that was the size of the document.
  have hself := Dom.handle_create_self d h (Document.content node)
  obtain ⟨set, hrun⟩ := Dom.exists_run_attributes hself node.attributes
  refine ⟨_, (Dom.run_cons (step_creation d h node) _).trans hrun, rfl, ⟨hself, ?_, ?_⟩, ?_, ?_, ?_,
    ?_, ?_, ?_, ?_⟩
  · exact Nat.lt_succ_self d.size
  · intro i hi q hq
    rw [Dom.size_modify, Dom.size_create] at hi ⊢
    by_cases heq : i = d.size
    · rw [heq, Dom.node_modify_self, Dom.node_create_self] at hq
      exact absurd hq (by simp [DomNode.fresh])
    · rw [Dom.node_modify_of_ne _ _ _ heq, Dom.node_create_of_ne _ _ _ heq] at hq
      exact Nat.lt_succ_of_lt (hd.parents i (by omega) q hq)
  · rw [Dom.handle_modify, Dom.handle_create_of_ne _ _ _ hh, hd.handle]
  · intro name hname
    rw [Dom.handle_modify, Dom.handle_create_of_ne _ _ _ hname]
  · intro i hi
    rw [Dom.node_modify_of_ne _ _ _ (by omega), Dom.node_create_of_ne _ _ _ (by omega)]
  all_goals rw [Dom.node_modify_self, Dom.node_create_self]
  all_goals simp [DomNode.fresh]

section

variable {parent h : String} {p : Nat} {d c c' : Dom} {node : Node} {inner : Emission}
  {roots : List Nat}

/-- The node that has been filled, before it is put below its parent. -/
theorem Created.node_self (hc : Created node parent h p d c)
    (hin : Laid inner h d.size node.children c c' roots) :
    c'.node d.size = (c.node d.size).withChildren roots := by
  rw [hin.parent_eq, hc.childless, List.nil_append]

/-- Filling the node leaves the older nodes alone. -/
theorem Created.node_below (hc : Created node parent h p d c)
    (hin : Laid inner h d.size node.children c c' roots) {i : Nat} (hi : i < d.size) :
    c'.node i = d.node i := by
  rw [hin.node_eq i (by rw [hc.size_eq]; omega) (by omega), hc.node_eq i hi]

theorem Created.size_lt (hc : Created node parent h p d c)
    (hin : Laid inner h d.size node.children c c' roots) : d.size < c'.size := by
  have := hin.size_le
  rw [hc.size_eq] at this
  omega

/-- A node that has been created and filled is put below its parent. -/
theorem run_around (f : Facts) (hd : Ready parent p d) (hparent : parent ∉ inner.handles)
    (hself : h ∉ inner.handles) (hc : Created node parent h p d c)
    (hin : Laid inner h d.size node.children c c' roots) :
    Dom.run (around f parent h node inner).build d = some (c'.attach p d.size) := by
  have hfree : (c'.node d.size).parent = none := by
    rw [hc.node_self hin]
    exact hc.free
  -- The new node is younger than everything above its parent.
  have habove : d.size ∉ c'.ancestors c'.size p := fun hmem => by
    have hlt : d.size < d.size := Dom.lt_of_mem_ancestors
      (fun i hi q hq => hd.parents i hi q (by rwa [hc.node_below hin hi] at hq))
      hd.exists_parent hmem
    omega
  have happend : c'.step (.appendChild parent h) = some (c'.attach p d.size) :=
    Dom.step_appendChild (by rw [hin.handle_eq parent hparent, hc.parent])
      (by rw [hin.handle_eq h hself, hc.ready.handle]) hfree habove
  have hbuild : (around f parent h node inner).build
      = (creation h node :: (node.attributes.map (attributeSteps h)).flatMap (·.1))
        ++ (inner.build ++ [.appendChild parent h]) := by
    simp [around]
  rw [hbuild, Dom.run_append hc.run, Dom.run_append hin.run, Dom.run_cons happend, Dom.run_nil]

/-- A document that holds what has been built for a node shows that node. -/
theorem shows_around (hd : Ready parent p d) (hc : Created node parent h p d c)
    (hin : Laid inner h d.size node.children c c' roots) {x : Dom}
    (hx : Dom.SameNodes d.size c'.size (c'.attach p d.size) x) : Shows x p node d.size := by
  have hp := hd.exists_parent
  have hself : x.node d.size = { (c.node d.size).withChildren roots with parent := some p } := by
    rw [hx d.size (Nat.le_refl _) (hc.size_lt hin), Dom.node_attach_self _ (by omega),
      hc.node_self hin]
  rw [shows_iff, hself]
  refine ⟨rfl, hc.content, ?_, ?_⟩
  · change (c.node d.size).listeners.Perm _
    rw [hc.listeners]
    exact List.reverse_perm _
  · -- Below the node nothing has changed since it was filled.
    refine hin.shows x fun i hi hi' => ?_
    rw [hc.size_eq] at hi
    rw [hx i (by omega) hi', Dom.node_attach_of_ne _ (by omega) (by omega)]

/-- The nodes below go first, then the listeners, then the node itself. -/
theorem exists_undone_around (f : Facts) (hd : Ready parent p d) (hself : h ∉ inner.handles)
    (hc : Created node parent h p d c) (hin : Laid inner h d.size node.children c c' roots)
    {kept : List Nat} {x : Dom}
    (hx : Standing (around f parent h node inner) parent p d (c'.attach p d.size) kept [d.size] x) :
    ∃ y, Undone (around f parent h node inner) p d.size c'.size kept x y := by
  have hp := hd.exists_parent
  have hsize := hc.size_lt hin
  have hroot : x.node d.size = { (c.node d.size).withChildren roots with parent := some p } := by
    rw [hx.nodes d.size (Nat.le_refl _) hsize, Dom.node_attach_self _ (by omega),
      hc.node_self hin]
  have hxh : x.handle h = some d.size := by
    rw [hx.handles h (by simp [around])]
    change c'.handle h = some d.size
    rw [hin.handle_eq h hself, hc.ready.handle]
  obtain ⟨y, hy⟩ := hin.undo [] x
    ⟨fun i hi hi' => by
        rw [hc.size_eq] at hi
        rw [hx.nodes i (by omega) hi', Dom.node_attach_of_ne _ (by omega) (by omega)],
      fun name hname => hx.handles name (List.mem_cons_of_mem _ hname), hxh,
      by rw [hroot]; rfl, fun i hi => absurd hi (by simp)⟩
  have hyroot : y.node d.size = { c.node d.size with parent := some p, children := [] } := by
    rw [hy.parent_eq, hroot]
    rfl
  have hl : (y.node d.size).listeners
      = (node.attributes.flatMap Attribute.listeners).reverse := by
    rw [hyroot]
    exact hc.listeners
  have hyother : ∀ i < d.size, y.node i = x.node i := fun i hi =>
    hy.node_eq i (by rw [hc.size_eq]; omega) (by omega)
  obtain ⟨z, hrun, hcareful, hzsize, hzhandle, hzp, hzself, hzother⟩ := Dom.exists_run_discard
    (by rw [hy.handle_eq]; exact hx.parent) (by rw [hy.handle_eq, hxh])
    (show p ≠ d.size by omega) (by rw [hyroot]) (by rw [hyroot]) hl
    (by rw [hyother p hp, hx.children])
    (fun hmem => absurd (hx.kept_lt _ hmem) (by omega))
  have hsteps : (around f parent h node inner).remove.reverse = inner.remove.reverse
      ++ ((node.attributes.flatMap Attribute.listeners).reverse.map
          (fun l => Step.removeListener h l.1 l.2) ++ [.removeChild parent h]) := by
    simp [around, Dom.removals_eq]
  refine ⟨z, ?_, ?_, ?_, ?_, ?_, ?_, ?_⟩
  · rw [hsteps, Dom.run_append hy.run, hrun]
  · rw [hsteps]
    exact Dom.along_append hy.run hy.careful hcareful
  · rw [hzsize, hy.size_eq]
  · rw [hzhandle, hy.handle_eq]
  · rw [hzp, hyother p hp]
  · intro i hi hip
    rw [hzother i hip (by omega), hy.node_eq i (by rw [hc.size_eq]; omega) (by omega)]
  · intro i hi hi'
    by_cases heq : i = d.size
    · rw [heq, hzself, hyroot, hroot]
      rfl
    · rw [hzother i (by omega) heq, hy.bare i (by rw [hc.size_eq]; omega) hi']

end

/-- The steps for one node. -/
theorem exists_laid_around {parent h : String} {p : Nat} {d : Dom} {node : Node}
    {inner : Emission} (f : Facts) (hd : Ready parent p d) (hh : parent ≠ h)
    (hparent : parent ∉ inner.handles) (hself : h ∉ inner.handles)
    (hlay : ∀ c : Dom, Ready h d.size c →
      ∃ c' roots, Laid inner h d.size node.children c c' roots) :
    ∃ d', Laid (around f parent h node inner) parent p [node] d d' [d.size] := by
  -- Create the node, fill it, and put it below its parent.
  obtain ⟨c, hc⟩ := exists_created hd hh node
  obtain ⟨c', roots, hin⟩ := hlay c hc.ready
  have hp := hd.exists_parent
  have hne : p ≠ d.size := by omega
  have hsize := hc.size_lt hin
  refine ⟨c'.attach p d.size, run_around f hd hparent hself hc hin, Nat.le_of_lt hsize, ?_, ?_, ?_,
    ?_, ?_, ?_, fun kept x hx => exists_undone_around f hd hself hc hin hx⟩
  · intro i hi hip
    rw [Dom.node_attach_of_ne _ hip (by omega), hc.node_below hin hi]
  · rw [Dom.node_attach_parent _ hne, hc.node_below hin hp]
  · intro name hname
    rw [around, List.mem_cons, not_or] at hname
    change c'.handle name = d.handle name
    rw [hin.handle_eq name hname.2, hc.handle_eq name hname.1]
  · -- Only the new node has got a parent, and that one is older.
    intro i hi q hq
    change i < c'.size at hi
    change q < c'.size
    by_cases hi' : i = d.size
    · rw [hi', Dom.node_attach_self _ hne] at hq
      have : p = q := by simpa using hq
      omega
    · by_cases hip : i = p
      · rw [hip, Dom.node_attach_parent _ hne] at hq
        exact hin.parents p (by omega) q hq
      · rw [Dom.node_attach_of_ne _ hip hi'] at hq
        exact hin.parents i hi q hq
  · intro r hr
    rw [List.mem_singleton.mp hr]
    exact ⟨Nat.le_refl _, hsize⟩
  · intro x hx
    rw [ShowsForest]
    exact ⟨shows_around hd hc hin hx, by simp, by simp [ShowsForest]⟩

/-! ## Forests -/

/-- Building a forest below a node. -/
theorem exists_laid_forest (f : Facts) (nodes : List Node) {parent : String} {n p : Nat} {d : Dom}
    (hd : Ready parent p d) (hold : Older n parent) :
    ∃ d' roots, Laid (forest f parent n nodes) parent p nodes d d' roots := by
  induction nodes using Node.forestInd generalizing parent n p d with
  | nil => exact ⟨d, [], laid_nil hd⟩
  | cons node nodes ihc ihn =>
    have hnodup := (numbered_handles f parent n (node :: nodes)).nodup
    rw [forest_cons] at hnodup ⊢
    dsimp only at hnodup ⊢
    -- The name of the parent and the handle of the node are older than the handles below it.
    have hself := older_handle (stem node) n
    have hne := hold.ne_handle (Nat.le_refl n) (stem node)
    have hparent := hold.not_mem_handles f (handle (stem node) n) (Nat.le_succ n) node.children
    obtain ⟨d', ha⟩ := exists_laid_around f hd hne hparent
      (hself.not_mem_handles f _ (Nat.le_refl _) node.children) fun c hc => ihc hc hself
    obtain ⟨d'', roots, hb⟩ := ihn (ha.ready hd fun hmem => by
      rcases List.mem_cons.mp hmem with heq | hmem
      · exact hne heq
      · exact hparent hmem) (hold.mono (Nat.le_add_right n _))
    rw [handles_append] at hnodup
    exact ⟨d'', d.size :: roots, ha.append hb hd fun name hname hname' =>
      (List.nodup_append.mp hnodup).2.2 name hname name hname' rfl⟩

end Reactive.Document
