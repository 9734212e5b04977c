/-
  Announcing only inserts notifications.

  Announcing puts a sequence around some of the writes of a script. Each of these writes has an
  address in the tree before and the sequence around it an address in the tree after, and both are
  found in one walk. Taking the first part of every such sequence gives the tree before back, and
  the writes are those with a name that is tracked and belongs to the component at their place.

  Nothing here depends on where facts and script come from: spans of scopes that do not fit the
  script only change which scope a place stands in.
-/
import Reactive.Proofs.Notify.Sites

namespace Reactive

open Script

/-! ## Sites -/

/-- The names that a write in a scope is announced for if some names are tracked. -/
def Facts.trackedWrites (f : Facts) (tracked : List String) (scope : Nat) (write : Tree) :
    List String :=
  (f.ownedWrites scope write).filter tracked.contains

/-- An update or an assignment stands at the address of a tree that writes to a tracked name of the
component. -/
def Facts.isSite (f : Facts) (tracked : List String) (scope : Nat) (t : Tree) (path : List Nat) :
    Bool :=
  (t.at? path).any fun e => e.label.isWrite && e.writtenNames.any fun name =>
    tracked.contains name && decide (f.Owns (f.scopes.scopeAt scope t path) name)

section

variable {f : Facts} {tracked : List String}

theorem notifiedNames_eq_trackedWrites {cursor : ScopeCursor} (hc : cursor.tree = f.scopes)
    (write : Tree) :
    notifiedNames f tracked cursor write.writtenNames
      = f.trackedWrites tracked cursor.current write := by
  unfold notifiedNames Facts.trackedWrites Facts.ownedWrites
  rw [List.filter_filter]
  refine List.filter_congr fun name _ => ?_
  rw [Bool.eq_iff_iff, Bool.and_eq_true, Bool.and_eq_true, isRootBinding_iff hc, decide_eq_true_eq]

theorem isSite_nil (scope : Nat) (t : Tree) :
    f.isSite tracked scope t [] = true ↔ f.trackedWrites tracked scope t ≠ [] := by
  obtain ⟨l, s, cs⟩ := t
  by_cases hw : l.isWrite
  · simp [Facts.isSite, Facts.trackedWrites, Facts.ownedWrites, hw, List.filter_eq_nil_iff]
  · simp [Facts.isSite, Facts.trackedWrites, Facts.ownedWrites, hw, Tree.writtenNames_eq_nil]

/-- Whether a site stands somewhere below a node is settled in the part it stands in. -/
theorem isSite_cons {scope : Nat} {l : Label} {s : Span} {cs : List Tree} {i : Nat} {c : Tree}
    (hc : cs[i]? = some c) (path : List Nat) :
    f.isSite tracked scope (.node l s cs) (i :: path)
      = f.isSite tracked (f.scopes.scopeInside scope l s) c path := by
  rw [Facts.isSite, Facts.isSite, Tree.at?_cons, hc, ScopeTree.scopeAt_cons _ _ hc]
  rfl

end

/-! ## Insertions -/

/-- The writes of a tree that are announced, in document order: the address of each before, and that
of the sequence around it after. -/
def insertions (f : Facts) (tracked : List String) (t : Tree) : Nat → List (List Nat × List Nat) :=
  t.fold fun l s parts scope =>
    let inside := f.scopes.scopeInside scope l s
    let inner := gather parts fun i part => (part.2 inside).map fun x => (i :: x.1, i :: x.2)
    if f.trackedWrites tracked scope (.node l s (parts.map (·.1))) = [] then inner
    -- The write, and with it all that is below, moves into the first part of a sequence.
    else ([], []) :: inner.map fun x => (x.1, 0 :: x.2)

section

variable (f : Facts) (tracked : List String)

/-- The insertions below a node. -/
def insertionsBelow (l : Label) (s : Span) (cs : List Tree) (scope : Nat) :
    List (List Nat × List Nat) :=
  gather cs fun i c => (insertions f tracked c (f.scopes.scopeInside scope l s)).map
    fun x => (i :: x.1, i :: x.2)

theorem insertions_node (l : Label) (s : Span) (cs : List Tree) (scope : Nat) :
    insertions f tracked (.node l s cs) scope =
      if f.trackedWrites tracked scope (.node l s cs) = []
      then insertionsBelow f tracked l s cs scope
      else ([], []) :: (insertionsBelow f tracked l s cs scope).map fun x => (x.1, 0 :: x.2) := by
  unfold insertions insertionsBelow
  rw [Tree.fold_node]
  simp only [gather_map, List.map_map, Function.comp_def, List.map_id']
  rfl

theorem map_fst_insertionsBelow (l : Label) (s : Span) (cs : List Tree) (scope : Nat) :
    (insertionsBelow f tracked l s cs scope).map (·.1) = gather cs fun i c =>
      ((insertions f tracked c (f.scopes.scopeInside scope l s)).map (·.1)).map (i :: ·) := by
  rw [insertionsBelow, map_gather]
  simp only [List.map_map, Function.comp_def]

theorem map_snd_insertionsBelow (l : Label) (s : Span) (cs : List Tree) (scope : Nat) :
    (insertionsBelow f tracked l s cs scope).map (·.2) = gather cs fun i c =>
      ((insertions f tracked c (f.scopes.scopeInside scope l s)).map (·.2)).map (i :: ·) := by
  rw [insertionsBelow, map_gather]
  simp only [List.map_map, Function.comp_def]

/-- The writes that are announced are the sites of a tree. -/
theorem map_fst_insertions (t : Tree) (scope : Nat) :
    (insertions f tracked t scope).map (·.1)
      = t.addresses.filter (f.isSite tracked scope t) := by
  induction t using Tree.ind generalizing scope with
  | node l s cs ih =>
    have hbelow : (insertionsBelow f tracked l s cs scope).map (·.1)
        = (gather cs fun i c => c.addresses.map (i :: ·)).filter
            (f.isSite tracked scope (.node l s cs)) := by
      rw [map_fst_insertionsBelow, filter_gather]
      refine gather_congr fun i c hc => ?_
      rw [ih c (List.mem_of_getElem? hc), List.filter_map]
      congr 2
      funext path
      exact (isSite_cons hc path).symm
    rw [insertions_node, Tree.addresses_node, List.filter_cons, ← hbelow]
    by_cases hnames : f.trackedWrites tracked scope (.node l s cs) = []
    · rw [if_pos hnames, if_neg (by rw [isSite_nil]; simpa using hnames)]
    · rw [if_neg hnames, if_pos ((isSite_nil _ _).mpr hnames), List.map_cons, List.map_map]
      rfl

/-- The sequences around the announced writes stand at different addresses. -/
theorem nodup_map_snd_insertions (t : Tree) (scope : Nat) :
    ((insertions f tracked t scope).map (·.2)).Nodup := by
  induction t using Tree.ind generalizing scope with
  | node l s cs ih =>
    have hbelow : ((insertionsBelow f tracked l s cs scope).map (·.2)).Nodup := by
      rw [map_snd_insertionsBelow]
      exact nodup_gather fun i c hc => ih c (List.mem_of_getElem? hc) _
    rw [insertions_node]
    split
    · exact hbelow
    · have houter := hbelow.map (List.cons_injective (a := 0))
      rw [List.map_map] at houter
      rw [List.map_cons, List.map_map]
      exact List.nodup_cons.mpr ⟨by simp, houter⟩

/-! ## The tree after -/

/-- Taking the first part of every sequence that was inserted gives the tree before. -/
theorem collapse_notifyTree (t : Tree) (cursor : ScopeCursor) (hc : cursor.tree = f.scopes)
    (marked : List Nat → Bool)
    (hmarked : ∀ path, marked path = true ↔
      path ∈ (insertions f tracked t cursor.current).map (·.2)) :
    (notifyTree f tracked t cursor).collapse marked = t := by
  induction t using Tree.ind generalizing cursor marked with
  | node l s cs ih =>
    -- With the sequences below the node marked, its parts come back one by one.
    have hparts : ∀ marked : List Nat → Bool, (∀ path, marked path = true ↔
        path ∈ (insertionsBelow f tracked l s cs cursor.current).map (·.2)) →
          (announcedParts f tracked l s cs cursor).collapse marked = .node l s cs := by
      intro marked hmarked
      rw [map_snd_insertionsBelow] at hmarked
      have hroot : ¬ marked [] = true := by simp [hmarked, mem_gather]
      rw [announcedParts, Tree.collapse_node, if_neg hroot, List.zipIdx_map, List.map_map]
      have hchildren : ∀ x ∈ cs.zipIdx, (notifyTree f tracked x.1 (cursor.inside l s)).collapse
          (fun path => marked (x.2 :: path)) = x.1 := by
        rintro ⟨c, i⟩ hx
        have hget : cs[i]? = some c := List.mem_zipIdx_iff_getElem?.mp hx
        refine ih c (List.mem_of_getElem? hget) _ (by simpa using hc) _ fun path => ?_
        rw [hmarked, cons_mem_gather, ScopeCursor.current_inside, hc]
        simp [hget]
      rw [Script.Tree.node.injEq]
      exact ⟨rfl, rfl, (List.map_congr_left hchildren).trans (List.zipIdx_map_fst 0 cs)⟩
    rw [insertions_node] at hmarked
    rw [notifyTree_node, notifiedNames_eq_trackedWrites hc]
    by_cases hnames : f.trackedWrites tracked cursor.current (.node l s cs) = []
    · rw [if_pos hnames] at hmarked
      rw [if_pos hnames]
      exact hparts marked hmarked
    · rw [if_neg hnames] at hmarked
      -- The sequence around the node is marked; its first part is the node with its parts.
      rw [if_neg hnames, announced, Tree.collapse_node, if_pos ((hmarked []).mpr (by simp))]
      refine hparts _ fun path => ?_
      rw [hmarked]
      simp

/-- Where a sequence was inserted, the write stands before the notification for its names. -/
theorem at?_insertions (t : Tree) (cursor : ScopeCursor) (hc : cursor.tree = f.scopes)
    {site path : List Nat} (hmem : (site, path) ∈ insertions f tracked t cursor.current) :
    ∃ e write, t.at? site = some e ∧ write.label = e.label ∧ write.span = e.span
      ∧ (notifyTree f tracked t cursor).at? path = some (announced write
        (f.trackedWrites tracked (f.scopes.scopeAt cursor.current t site) e)) := by
  induction t using Tree.ind generalizing cursor site path with
  | node l s cs ih =>
    have hscope : (cursor.inside l s).current = f.scopes.scopeInside cursor.current l s := by
      rw [ScopeCursor.current_inside, hc]
    have hparts : ∀ {site path}, (site, path) ∈ insertionsBelow f tracked l s cs cursor.current →
        ∃ e write, (Script.Tree.node l s cs).at? site = some e ∧ write.label = e.label
          ∧ write.span = e.span ∧ (announcedParts f tracked l s cs cursor).at? path
            = some (announced write (f.trackedWrites tracked
              (f.scopes.scopeAt cursor.current (.node l s cs) site) e)) := by
      intro site path hmem
      obtain ⟨i, c, hget, hmem⟩ := mem_gather.mp hmem
      obtain ⟨⟨site', path'⟩, hinner, heq⟩ := List.mem_map.mp hmem
      obtain ⟨rfl, rfl⟩ := Prod.mk.inj heq
      rw [← hscope] at hinner
      obtain ⟨e, write, he, hlabel, hspan, hat⟩ :=
        ih c (List.mem_of_getElem? hget) _ (by simpa using hc) hinner
      refine ⟨e, write, by rw [Tree.at?_cons, hget]; exact he, hlabel, hspan, ?_⟩
      rw [ScopeTree.scopeAt_cons _ _ hget, announcedParts, Tree.at?_cons, List.getElem?_map, hget,
        ← hscope]
      exact hat
    rw [insertions_node] at hmem
    rw [notifyTree_node, notifiedNames_eq_trackedWrites hc]
    by_cases hnames : f.trackedWrites tracked cursor.current (.node l s cs) = []
    · rw [if_pos hnames] at hmem
      rw [if_pos hnames]
      exact hparts hmem
    · rw [if_neg hnames] at hmem
      rw [if_neg hnames]
      rcases List.mem_cons.mp hmem with heq | hmem
      · obtain ⟨rfl, rfl⟩ := Prod.mk.inj heq
        exact ⟨_, announcedParts f tracked l s cs cursor, Tree.at?_nil _, rfl, rfl, by simp⟩
      · obtain ⟨⟨site', path'⟩, hinner, heq⟩ := List.mem_map.mp hmem
        obtain ⟨rfl, rfl⟩ := Prod.mk.inj heq
        exact hparts hinner

end

/-! ## Scripts -/

namespace Script

/-- Whatever a reader gives has a property. -/
def Yields {α : Type} (P : α → Prop) (reader : Parser α) : Prop :=
  ∀ s a s', reader s = .ok a s' → P a

theorem yields_pure {α : Type} {P : α → Prop} {a : α} (h : P a) :
    Yields P (pure a : Parser α) := by
  rintro s _ s' ⟨⟩
  exact h

theorem yields_bind {α β : Type} {P : β → Prop} {reader : Parser α} {next : α → Parser β}
    (h : ∀ a, Yields P (next a)) : Yields P (reader >>= next) := by
  intro s b s' hb
  change EStateM.bind reader next s = _ at hb
  unfold EStateM.bind at hb
  split at hb
  · exact h _ _ _ _ hb
  · exact absurd hb (by simp)

theorem yields_program (r : Parser.Rules) :
    Yields (fun t => t.label = .program) (programRule r) := by
  unfold programRule
  refine yields_bind fun s => ?_
  dsimp only
  -- Whatever comes before, the last thing that is done is to give a program.
  cases hashbangAt s.next with
  | none =>
    exact yields_bind fun _ => yields_bind fun _ => yields_bind fun _ => yields_bind fun _ =>
      yields_pure rfl
  | some found =>
    exact yields_bind fun _ => yields_bind fun _ => yields_bind fun _ => yields_bind fun _ =>
      yields_bind fun _ => yields_pure rfl

/-- The tree of a script is a program. -/
theorem label_programTree (source : List Char) : (programTree source).tree.label = .program := by
  unfold programTree parseModule
  cases hread : programRule (rulesFor source) (startState source) with
  | ok t s => exact yields_program _ _ _ _ hread
  | error e s => rfl

end Script

/-- A program is announced like any other node, once its reactive declarations are left out. -/
theorem tree_notifyProgram (f : Facts) (p : NotifyPolicy) (program : Program) :
    (notifyProgram f p program).tree = notifyTree f (p.tracked f)
      (.node .program program.tree.span (ordinaryStatements program.tree.children))
      (.start f.scopes) := by
  rw [notifyTree_of_not_isWrite f _ rfl]
  rfl

/-- Whatever script is read and whatever facts are given, announcing leaves out the reactive
declarations and inserts sequences, each made of a write and the notification for its names. Taking
the first part of each of them gives back all the rest of the script as it was read. There are as
many of them as there are updates and assignments with a name that is tracked and belongs to the
component at their place. -/
theorem notifyProgram_only_inserts (source : String) (f : Facts) (p : NotifyPolicy) :
    let program := programTree source.toList
    let tree := Script.Tree.node program.tree.label program.tree.span
      (ordinaryStatements program.tree.children)
    let output := notifyProgram f p program
    let sites := tree.addresses.filter (f.isSite (p.tracked f) ScopeTree.rootId tree)
    (Text.blankString source = false →
      notifyScript source f p = String.ofList output.text)
    ∧ (sites.Nodup ∧ ∀ site, site ∈ sites ↔ ∃ e, tree.at? site = some e ∧ e.label.isWrite
        ∧ ∃ name ∈ e.writtenNames, name ∈ p.tracked f
          ∧ f.Owns (f.scopes.scopeAt ScopeTree.rootId tree site) name)
    ∧ ∃ inserted : List (List Nat), inserted.Nodup ∧ inserted.length = sites.length
      ∧ { output with tree := output.tree.collapse fun path => decide (path ∈ inserted) }
        = { program with tree := tree }
      ∧ ∀ site path, (site, path) ∈ sites.zip inserted → ∃ e write, tree.at? site = some e
        ∧ write.label = e.label ∧ write.span = e.span
        ∧ output.tree.at? path = some (announced write (f.trackedWrites (p.tracked f)
          (f.scopes.scopeAt ScopeTree.rootId tree site) e)) := by
  intro program tree output sites
  let pairs := insertions f (p.tracked f) tree ScopeTree.rootId
  have hsites : pairs.map (·.1) = sites := map_fst_insertions f (p.tracked f) tree _
  have houtput : output.tree = notifyTree f (p.tracked f) tree (.start f.scopes) := by
    rw [tree_notifyProgram]
    show notifyTree f _ (.node .program _ _) _ = notifyTree f _ (.node program.tree.label _ _) _
    rw [label_programTree]
  refine ⟨?_, ⟨tree.nodup_addresses.filter _, ?_⟩, pairs.map (·.2), ?_, ?_, ?_, ?_⟩
  · intro hblank
    rw [notifyScript, hblank]
    rfl
  · intro site
    rw [List.mem_filter, Tree.mem_addresses, Facts.isSite]
    constructor
    · rintro ⟨⟨e, he⟩, hsite⟩
      rw [he] at hsite
      exact ⟨e, he, by simpa using hsite⟩
    · rintro ⟨e, he, hsite⟩
      rw [he]
      exact ⟨⟨e, rfl⟩, by simpa using hsite⟩
  · exact nodup_map_snd_insertions f (p.tracked f) tree _
  · rw [← hsites, List.length_map, List.length_map]
  · have hcollapse : output.tree.collapse (fun path => decide (path ∈ pairs.map (·.2))) = tree := by
      rw [houtput]
      exact collapse_notifyTree f _ tree _ rfl _ fun path => decide_eq_true_iff
    rw [hcollapse]
    rfl
  · intro site path hmem
    rw [← List.zip_of_prod hsites rfl] at hmem
    rw [houtput]
    exact at?_insertions f _ tree (.start f.scopes) rfl hmem

/-- Facts about another script, and a write inside a write in a block that these facts know nothing
about: the two sequences are inserted one inside the other, and taking their first parts leaves the
script without its reactive declaration. -/
theorem notifyProgram_inserts_nested :
    let f := analyze ⟨"", ⟨[], []⟩, some ⟨"let n = 0; n++;", []⟩⟩
    let program := programTree "let n = 0; $: m = n; \x7b n = n++; m = 2; \x7d".toList
    let output := notifyProgram f .reactive program
    ∃ inserted : List (List Nat), inserted.length = 2
      ∧ (output.tree.collapse fun path => decide (path ∈ inserted))
        = .node program.tree.label program.tree.span (ordinaryStatements program.tree.children)
      ∧ ∃ path ∈ inserted, ∃ write : Tree, write.label = .update .increment false
        ∧ output.tree.at? path = some (announced write ["n"]) := by
  intro f program output
  let tree := Script.Tree.node program.tree.label program.tree.span
    (ordinaryStatements program.tree.children)
  -- The sites and what is written at the second one, computed at once.
  obtain ⟨hsites, hsite⟩ : tree.addresses.filter
        (f.isSite (NotifyPolicy.tracked .reactive f) ScopeTree.rootId tree)
          = [[1, 0, 0], [1, 0, 0, 1]]
      ∧ (tree.at? [1, 0, 0, 1]).map (fun e => (e.label,
          f.trackedWrites (NotifyPolicy.tracked .reactive f)
            (f.scopes.scopeAt ScopeTree.rootId tree [1, 0, 0, 1]) e))
          = some (.update .increment false, ["n"]) := by decide +kernel
  obtain ⟨-, -, inserted, -, hlength, hcollapse, hat⟩ :=
    notifyProgram_only_inserts "let n = 0; $: m = n; \x7b n = n++; m = 2; \x7d" f .reactive
  rw [hsites] at hlength hat
  obtain ⟨outer, inner, rfl⟩ := List.length_eq_two.mp hlength
  refine ⟨[outer, inner], rfl, ?_, inner, by simp, ?_⟩
  · exact congrArg Program.tree hcollapse
  obtain ⟨e, write, he, hlabel, -, hannounced⟩ := hat [1, 0, 0, 1] inner (by simp)
  rw [he, Option.map_some, Option.some_inj, Prod.mk.injEq] at hsite
  rw [hsite.2] at hannounced
  exact ⟨write, hlabel.trans hsite.1, hannounced⟩

end Reactive
