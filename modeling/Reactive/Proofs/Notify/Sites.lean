/-
  Which writes are announced.

  A write is announced for those of its names that belong to the component at its place: names
  of the root scope, and hoisted names that no scope around the place declares. The analysis
  has seen every such name before, so following only reactive names drops none of them. Main
  statement: at every update and every assignment of an ordinary statement, at any depth, a
  notification for exactly these names stands behind the write, and none if there are none.
-/
import Reactive.Proofs.Facts.Progress
import Reactive.Proofs.Notify.Announce
import Reactive.Proofs.Script.Lookup

namespace Reactive

open Script

/-! ## Names of the component -/

/-- The name, looked up from a scope, belongs to the component. -/
def Facts.Owns (f : Facts) (scope : Nat) (name : String) : Prop :=
  f.scopes.findOwner scope name = some ScopeTree.rootId
    ∨ f.scopes.findOwner scope name = none ∧ name ∈ f.hoisted

instance (f : Facts) (scope : Nat) (name : String) : Decidable (f.Owns scope name) :=
  inferInstanceAs (Decidable (_ ∨ _ ∧ _))

/-- The names that a write in a scope has to be announced for. -/
def Facts.ownedWrites (f : Facts) (scope : Nat) (write : Tree) : List String :=
  write.writtenNames.filter fun name => f.Owns scope name

/-- A cursor over the scopes of a script tells the names of the component. -/
theorem isRootBinding_iff {f : Facts} {cursor : ScopeCursor} (hc : cursor.tree = f.scopes)
    (name : String) : f.isRootBinding cursor name = true ↔ f.Owns cursor.current name := by
  unfold Facts.isRootBinding Facts.Owns ScopeCursor.resolve
  rw [hc]
  cases f.scopes.findOwner cursor.current name with
  | none => simp
  | some owner => simp

/-- A name that a scope other than the root declares around a place is none of the component. -/
theorem not_owns_of_declaresAt {f : Facts} {scope k : Nat} {name : String}
    (hk : k ∈ f.scopes.chain scope) (hroot : k ≠ ScopeTree.rootId)
    (hd : f.scopes.declaresAt name k) : ¬ f.Owns scope name := by
  obtain ⟨owner, howner, hle⟩ := ScopeTree.exists_findOwner_ge hk hd
  rintro (h | ⟨h, -⟩)
  · rw [howner, Option.some_inj] at h
    rw [h] at hle
    exact hroot (Nat.le_zero.mp hle)
  · rw [howner] at h
    exact absurd h (by simp)

/-! ## The analysis sees every write -/

/-- A write to a name of the root, anywhere in a tree, is among the writes to the root. -/
theorem mem_rootWrites_of_at? {t e : Tree} {path : List Nat} {name : String}
    (he : t.at? path = some e) (hname : name ∈ e.writtenNames) (cursor : ScopeCursor)
    (hroot : cursor.tree.findOwner (cursor.tree.scopeAt cursor.current t path) name
      = some ScopeTree.rootId) :
    name ∈ t.rootWrites cursor := by
  induction path generalizing t cursor with
  | nil =>
    obtain ⟨l, s, cs⟩ := t
    rw [Tree.at?_nil, Option.some_inj] at he
    subst he
    rw [ScopeTree.scopeAt_nil] at hroot
    rw [Tree.rootWrites, Tree.fold_node]
    refine List.mem_append_left _ (List.mem_filter.mpr ⟨?_, ?_⟩)
    · simpa [Function.comp_def] using hname
    · simp [ScopeCursor.resolvesToRoot, ScopeCursor.resolve, hroot]
  | cons i path ih =>
    obtain ⟨l, s, cs⟩ := t
    obtain ⟨c, hc, hce⟩ := Tree.exists_child_of_at? he
    rw [ScopeTree.scopeAt_cons _ _ hc] at hroot
    have hin := ih hce (cursor.inside l s) (by simpa using hroot)
    rw [Tree.rootWrites, Tree.fold_node]
    refine List.mem_append_right _ (List.mem_flatMap.mpr ⟨(c, c.rootWrites), ?_, hin⟩)
    exact List.mem_map.mpr ⟨c, List.mem_of_getElem? hc, rfl⟩

/-- Every name that a write of an ordinary statement has to be announced for is reactive. -/
theorem reactive_of_owned {source : List Char} {statements : List Tree} {referred : List String}
    {t e : Tree} {path : List Nat} {name : String} (ht : t ∈ ordinaryStatements statements)
    (he : t.at? path = some e)
    (hname : name ∈ (analyzeStatements source statements referred).ownedWrites
      ((analyzeStatements source statements referred).scopes.scopeAt ScopeTree.rootId t path) e) :
    name ∈ (analyzeStatements source statements referred).reactive := by
  obtain ⟨hwritten, howns⟩ := List.mem_filter.mp hname
  rcases of_decide_eq_true howns with hroot | ⟨-, hhoisted⟩
  · apply reactive_of_rootMutations
    rw [rootMutations, List.mem_eraseDups]
    refine List.mem_flatMap.mpr ⟨t, ht, mem_rootWrites_of_at? he hwritten _ ?_⟩
    exact hroot
  · exact reactive_of_hoisted source statements referred hhoisted

/-! ## Where a write goes -/

/-- The address, after announcing, of the node at an address before. A step into a node that is
announced first enters the notification's sequence, where the node comes first. -/
def announcedAddress (f : Facts) (scope : Nat) : Tree → List Nat → List Nat
  | _, [] => []
  | .node l s cs, i :: path =>
    let rest := match cs[i]? with
      | none => path
      | some c => announcedAddress f (f.scopes.scopeInside scope l s) c path
    if f.ownedWrites scope (.node l s cs) = [] then i :: rest else 0 :: i :: rest

@[simp] theorem announcedAddress_nil (f : Facts) (scope : Nat) (t : Tree) :
    announcedAddress f scope t [] = [] := by
  cases t; rfl

section

variable {f : Facts} {tracked : List String}

/-- With all its names tracked, a write is announced for the names of the component. -/
theorem notifiedNames_eq {cursor : ScopeCursor} (hc : cursor.tree = f.scopes) (write : Tree)
    (htracked : ∀ name ∈ f.ownedWrites cursor.current write, name ∈ tracked) :
    notifiedNames f tracked cursor write.writtenNames = f.ownedWrites cursor.current write := by
  unfold notifiedNames Facts.ownedWrites
  refine List.filter_congr fun name hname => ?_
  rw [Bool.eq_iff_iff, Bool.and_eq_true, isRootBinding_iff hc, decide_eq_true_eq]
  refine ⟨And.right, fun h => ⟨?_, h⟩⟩
  have hmem := htracked name (List.mem_filter.mpr ⟨hname, decide_eq_true h⟩)
  simpa using hmem

/-- Where a write stands after announcing, and what stands there. -/
theorem at?_notifyTree {t e : Tree} {path : List Nat} (he : t.at? path = some e)
    (cursor : ScopeCursor) (hc : cursor.tree = f.scopes)
    (htracked : ∀ p d, t.at? p = some d →
      ∀ name ∈ f.ownedWrites (f.scopes.scopeAt cursor.current t p) d, name ∈ tracked) :
    ∃ there : ScopeCursor, there.tree = f.scopes
      ∧ there.current = f.scopes.scopeAt cursor.current t path
      ∧ (notifyTree f tracked t cursor).at? (announcedAddress f cursor.current t path)
        = some (notifyTree f tracked e there) := by
  induction path generalizing t cursor with
  | nil =>
    rw [Tree.at?_nil, Option.some_inj] at he
    subst he
    exact ⟨cursor, hc, by simp, by simp⟩
  | cons i path ih =>
    obtain ⟨l, s, cs⟩ := t
    obtain ⟨c, hget, hce⟩ := Tree.exists_child_of_at? he
    have hscope : (cursor.inside l s).current = f.scopes.scopeInside cursor.current l s := by
      rw [ScopeCursor.current_inside, hc]
    -- The tracked names cover the child, whose scope is the one inside this node.
    have hchild := ih hce (cursor.inside l s) (by simpa using hc) (by
      intro p d hp name hname
      refine htracked (i :: p) d (by rw [Tree.at?_cons, hget]; exact hp) name ?_
      rwa [ScopeTree.scopeAt_cons _ _ hget, ← hscope])
    obtain ⟨there, htree, hcurrent, hat⟩ := hchild
    refine ⟨there, htree, ?_, ?_⟩
    · rw [hcurrent, hscope, ScopeTree.scopeAt_cons _ _ hget]
    · have hnames : notifiedNames f tracked cursor (Script.Tree.node l s cs).writtenNames
          = f.ownedWrites cursor.current (.node l s cs) := by
        refine notifiedNames_eq hc _ fun name hname => ?_
        exact htracked [] _ (Tree.at?_nil _) name (by simpa using hname)
      have hparts : (announcedParts f tracked l s cs cursor).at?
          (i :: announcedAddress f (f.scopes.scopeInside cursor.current l s) c path)
          = some (notifyTree f tracked e there) := by
        rw [announcedParts, Tree.at?_cons, List.getElem?_map, hget, ← hscope]
        exact hat
      rw [notifyTree_node]
      dsimp only
      rw [hnames, announcedAddress, hget]
      dsimp only
      split
      · exact hparts
      · exact hparts

end

/-! ## The script of a component -/

/-- Every write in the ordinary statements of a component's script, at any depth, is kept with its
    label, its span and the names that it writes to. Behind it stands the notification for the
    names of the component among these, exactly when there are any. All of them are reactive, and
    no name that a scope other than the root declares around the write is among them. -/
theorem notifyProgram_announces_owned_writes (c : Component) {i : Nat} {statement e : Tree}
    {path : List Nat}
    (hget : (ordinaryStatements (programTree c.scriptSource.toList).tree.children)[i]?
      = some statement)
    (hstatement : isStatement statement) (he : statement.at? path = some e)
    (hwrite : e.label.isWrite) :
    let f := analyze c
    let output := notifyProgram f .reactive (programTree c.scriptSource.toList)
    let place := i :: announcedAddress f ScopeTree.rootId statement path
    let scope := f.scopes.scopeAt ScopeTree.rootId statement path
    let names := f.ownedWrites scope e
    (Text.blankString c.scriptSource = false →
      notifyScript c.scriptSource f .reactive = String.ofList output.text)
    ∧ (∃ e' : Tree, e'.label = e.label ∧ e'.span = e.span ∧ e'.writtenNames = e.writtenNames
        ∧ (output.tree.at? place = some (announced e' names) ↔ names ≠ [])
        ∧ (names = [] → output.tree.at? place = some e'))
    ∧ (∀ name ∈ names, name ∈ f.reactive)
    ∧ ∀ name k, k ∈ f.scopes.chain scope → k ≠ ScopeTree.rootId →
        f.scopes.declaresAt name k → name ∉ names := by
  intro f output place scope names
  have hordinary : statement ∈ ordinaryStatements (programTree c.scriptSource.toList).statements :=
    List.mem_filter.mpr ⟨List.mem_filter.mpr
      ⟨List.mem_of_mem_filter (List.mem_of_getElem? hget), hstatement⟩,
      (List.mem_filter.mp (List.mem_of_getElem? hget)).2⟩
  have hreactive : ∀ p d, statement.at? p = some d →
      ∀ name ∈ f.ownedWrites (f.scopes.scopeAt ScopeTree.rootId statement p) d,
        name ∈ f.reactive :=
    fun p d hp name hname => reactive_of_owned hordinary hp hname
  obtain ⟨there, htree, hcurrent, hat⟩ :=
    at?_notifyTree he (ScopeCursor.start f.scopes) rfl hreactive
  obtain ⟨l, s, cs⟩ := e
  have hnames :
      notifiedNames f f.reactive there (Script.Tree.node l s cs).writtenNames = names := by
    rw [notifiedNames_eq htree _ (by rw [hcurrent]; exact hreactive path _ he), hcurrent]
    rfl
  have houtput : output.tree.at? place = some
      (if names = [] then announcedParts f f.reactive l s cs there
        else announced (announcedParts f f.reactive l s cs there) names) := by
    rw [← hnames, ← notifyTree_node, ← hat]
    show (Script.Tree.node _ _ _).at? (i :: _) = _
    rw [Tree.at?_cons, List.getElem?_map]
    have hkept : (List.filter (fun s => (reactiveBody? s).isNone)
        (programTree c.scriptSource.toList).tree.children)[i]? = some statement := hget
    rw [hkept]
    rfl
  refine ⟨?_, ⟨announcedParts f f.reactive l s cs there, rfl, rfl,
    writtenNames_announcedParts f f.reactive l s cs there, ⟨?_, ?_⟩, ?_⟩, ?_, ?_⟩
  · intro hblank
    rw [notifyScript, hblank]
    rfl
  · -- A write that is not announced is no sequence.
    intro h hnil
    rw [houtput, if_pos hnil, Option.some_inj] at h
    have hlabel : l = .sequence := congrArg Tree.label h
    rw [Tree.label_node, hlabel] at hwrite
    exact absurd hwrite (by decide)
  · intro hne
    rw [houtput, if_neg hne]
  · intro hnil
    rw [houtput, if_pos hnil]
  · exact fun name hname => hreactive path _ he name hname
  · intro name k hk hroot hd hmem
    exact not_owns_of_declaresAt hk hroot hd (of_decide_eq_true (List.mem_filter.mp hmem).2)

/-- In `m = n++`, where `m` is hoisted and `n` declared, both writes are announced, and the inner
    one stands inside the outer one. -/
theorem notifyProgram_announces_inner_write :
    let c : Component := ⟨"", ⟨[], []⟩, some ⟨"let n = 0; $: m = n; m = n++;", []⟩⟩
    let output := notifyProgram (analyze c) .reactive (programTree c.scriptSource.toList)
    ∃ e' : Tree, e'.label = .update .increment false
      ∧ output.tree.at? [1, 0, 0, 1] = some (announced e' ["n"]) := by
  intro c output
  let statements := ordinaryStatements (programTree c.scriptSource.toList).tree.children
  -- What the theorem asks of the place and says about it, computed at once.
  have hsite : (statements[1]?.bind fun statement => (statement.at? [0, 1]).map fun e =>
      (isStatement statement, e.label, announcedAddress (analyze c) 0 statement [0, 1],
        (analyze c).ownedWrites ((analyze c).scopes.scopeAt 0 statement [0, 1]) e))
      = some (true, .update .increment false, [0, 0, 1], ["n"]) := by
    decide +kernel
  obtain ⟨statement, hget, hsite⟩ := Option.bind_eq_some_iff.mp hsite
  obtain ⟨e, he, hsite⟩ := Option.map_eq_some_iff.mp hsite
  simp only [Prod.mk.injEq] at hsite
  obtain ⟨hstatement, hlabel, hplace, hnames⟩ := hsite
  obtain ⟨-, ⟨e', hlabel', -, -, hat, -⟩, -⟩ :=
    notifyProgram_announces_owned_writes c hget hstatement he (by rw [hlabel]; rfl)
  refine ⟨e', by rw [hlabel', hlabel], ?_⟩
  rw [ScopeTree.rootId, hplace, hnames] at hat
  exact hat.mpr (by simp)

end Reactive
