/-
  Which scope holds which names.

  The rules of the language about declarations, stated on a script as a tree: a declaration by
  `let`, `const`, `class` or `function` belongs to the innermost node around it that opens a
  scope, a declaration by `var` to the innermost function around it, parameters and the name of a
  function expression to the function itself, and imports to the root. Main statement: the names
  that the built scopes hold are these and no others. Nothing in the rules goes by numbers of
  scopes or by the walk that builds them.
-/
import Reactive.Proofs.Script.Binder
import Reactive.Proofs.Script.Enclosing
import Reactive.Proofs.Script.Replay

namespace Reactive.Script

/-- The label of nodes whose scope takes the `var` declarations inside. -/
def Label.hoists (l : Label) : Bool := l.scopeKind? = some .function

theorem Label.opens_of_hoists {l : Label} (h : l.hoists) : l.opens = true := by
  have hkind : l.scopeKind? = some .function := of_decide_eq_true h
  rw [Label.opens, hkind]
  rfl

/-- No node opens a root. -/
theorem Label.scopeKind?_ne_root (l : Label) : l.scopeKind? ≠ some .root := by
  unfold Label.scopeKind?
  split <;> simp

namespace Tree

/-! ## Names that a node declares -/

/-- The names of a declaration that belong to the innermost scope around it. The function or class
of a default export is no declaration in this sense. -/
def blockNames : Tree → List String
  | node (.variables .var) _ _ => []
  | node (.variables _) _ declarators =>
    declarators.flatMap fun d => (d.children.headD .absent).patternNames
  | node (.function .declaration ..) _ (name :: _) => name.patternNames
  | node (.classNode .declaration) _ parts => (ScopeTree.className parts).map (·.1)
  | _ => []

/-- The names of a declaration that belong to the innermost function around it. -/
def hoistedNames : Tree → List String
  | node (.variables .var) _ declarators =>
    declarators.flatMap fun d => (d.children.headD .absent).patternNames
  | _ => []

/-- The names that a node declares for its own parts: parameters, the name of a function expression,
and what a handler catches. -/
def headNames : Tree → List String
  | node (.function .expression ..) _ (name :: parameters :: _) =>
    name.patternNames ++ parameters.patternNames
  | node (.function ..) _ (_ :: parameters :: _) => parameters.patternNames
  | node (.arrow ..) _ (parameters :: _) => parameters.patternNames
  | node .catchClause _ (pattern :: _) => pattern.patternNames
  | _ => []

/-! ## Places -/

/-- The nodes of a tree, each with its address, in document order. What is inside an import is left
out. -/
def places (t : Tree) : List (List Nat × Tree) :=
  t.fold fun l s parts =>
    ([], node l s (parts.map (·.1))) :: if l.isImport then []
      else gather parts fun i part => part.2.map fun place => (i :: place.1, place.2)

/-- The address of the innermost node of a kind around a place. -/
def around (kind : Label → Bool) : Tree → List Nat → Option (List Nat)
  | _, [] => none
  | node l _ cs, i :: path =>
    match cs[i]? with
    | none => none
    | some c => ((around kind c path).map (i :: ·)).or (if kind l then some [] else none)

/-- A name belongs to the node at an address, or to the root. -/
inductive Declares (t : Tree) (x : String) : Option (List Nat) → Prop where
  | block {path : List Nat} {e : Tree} (he : (path, e) ∈ t.places) (hx : x ∈ e.blockNames) :
      Declares t x (t.around Label.opens path)
  | hoisted {path : List Nat} {e : Tree} (he : (path, e) ∈ t.places) (hx : x ∈ e.hoistedNames) :
      Declares t x (t.around Label.hoists path)
  | head {path : List Nat} {e : Tree} (he : (path, e) ∈ t.places) (hx : x ∈ e.headNames) :
      Declares t x (some path)
  | imported {path : List Nat} {e : Tree} (he : (path, e) ∈ t.places)
      (himport : e.label.isImport) (hx : x ∈ e.patternNames) : Declares t x none

theorem places_node (l : Label) (s : Span) (cs : List Tree) :
    (node l s cs).places = ([], node l s cs) :: if l.isImport then []
      else gather cs fun i c => c.places.map fun place => (i :: place.1, place.2) := by
  rw [places, fold_node, gather_map]
  simp only [List.map_map, Function.comp_def, List.map_id']
  rfl

theorem at?_of_mem_places {t e : Tree} {path : List Nat} (h : (path, e) ∈ t.places) :
    t.at? path = some e := by
  induction t using ind generalizing path with
  | node l s cs ih =>
    rw [places_node, List.mem_cons] at h
    rcases h with h | h
    · obtain ⟨rfl, rfl⟩ := Prod.mk.inj h
      exact at?_nil _
    · split at h
      · exact absurd h (by simp)
      · obtain ⟨i, c, hc, hmem⟩ := mem_gather.mp h
        obtain ⟨⟨rest, u⟩, hplace, heq⟩ := List.mem_map.mp hmem
        obtain ⟨rfl, rfl⟩ := Prod.mk.inj heq
        rw [at?_cons, hc]
        exact ih c (List.mem_of_getElem? hc) hplace

section

variable {kind : Label → Bool}

@[simp] theorem around_nil (t : Tree) : t.around kind [] = none := by
  cases t; rfl

theorem around_cons {l : Label} {s : Span} {cs : List Tree} {i : Nat} {c : Tree}
    (hc : cs[i]? = some c) (path : List Nat) : (node l s cs).around kind (i :: path)
      = ((c.around kind path).map (i :: ·)).or (if kind l then some [] else none) := by
  rw [around, hc]

/-- One step further down, the node that the step leaves is around as well. -/
theorem around_concat {t u e : Tree} {path : List Nat} {i : Nat} (hu : t.at? path = some u)
    (he : t.at? (path ++ [i]) = some e) :
    t.around kind (path ++ [i]) = if kind u.label then some path else t.around kind path := by
  induction path generalizing t with
  | nil =>
    obtain ⟨l, s, cs⟩ := t
    obtain rfl : Tree.node l s cs = u := by simpa using hu
    obtain ⟨c, hc, -⟩ := exists_child_of_at? he
    rw [List.nil_append, around_cons hc]
    simp
  | cons j path ih =>
    obtain ⟨l, s, cs⟩ := t
    obtain ⟨c, hc, hcu⟩ := exists_child_of_at? hu
    have hce : c.at? (path ++ [i]) = some e := by
      obtain ⟨c', hc', hce⟩ := exists_child_of_at? he
      obtain rfl : c = c' := Option.some_inj.mp (hc.symm.trans hc')
      exact hce
    rw [List.cons_append, around_cons hc, around_cons hc, ih hcu hce]
    cases kind u.label <;> simp

end

end Tree

open ScopeTree

/-! ## Places are visits -/

section

variable {σ β γ : Type} {put : Nat → β → β} (put' : Nat → γ → γ)

/-- Results that do not depend on the state are collected part by part. -/
theorem map_inTurn {f : β → γ} (hput : ∀ i b, f (put i b) = put' i (f b)) {α : Type}
    {visit : α → σ → List β × σ} {result : α → List γ} {parts : List α}
    (h : ∀ a ∈ parts, ∀ s, (visit a s).1.map f = result a) (i : Nat) (s : σ) :
    (inTurn put i (parts.map visit) s).1.map f
      = (parts.zipIdx i).flatMap fun x => (result x.1).map (put' x.2) := by
  induction parts generalizing i s with
  | nil => rfl
  | cons a parts ih =>
    have hfirst : ((visit a s).1.map (put i)).map f = (result a).map (put' i) := by
      rw [← h a List.mem_cons_self s, List.map_map, List.map_map]
      exact List.map_congr_left fun b _ => hput i b
    have hrest := ih (fun b hb => h b (List.mem_cons_of_mem _ hb)) (i + 1) (visit a s).2
    rw [List.map_cons, inTurn, List.map_append, hfirst, hrest, List.zipIdx_cons, List.flatMap_cons]

end

/-- Building scopes visits the places of a tree. -/
theorem places_eq_visits (t : Tree) (current : Nat) (scopes : ScopeTree) :
    (t.recorded current scopes).1.map (fun v => (v.path, v.node)) = t.places := by
  induction t using Tree.ind generalizing current scopes with
  | node l s cs ih =>
    rw [Tree.places_node]
    by_cases hl : l.isImport
    · rw [Tree.recorded_import hl, if_pos hl]
      rfl
    · rw [Bool.not_eq_true] at hl
      rw [Tree.recorded_node hl, if_neg (by simp [hl]), List.map_cons]
      congr 1
      exact map_inTurn (fun i place => (i :: place.1, place.2)) (fun _ _ => rfl)
        (fun c hc s => ih c hc _ s) 0 _

section

variable {statements : List Tree} {path : List Nat} {e : Tree}

theorem exists_visit_of_mem_places (h : (path, e) ∈ (scriptTree statements).places) :
    ∃ v ∈ scriptVisits statements, v.path = path ∧ v.node = e := by
  rw [← places_eq_visits _ rootId .start] at h
  obtain ⟨v, hv, heq⟩ := List.mem_map.mp h
  exact ⟨v, hv, Prod.mk.inj heq⟩

theorem mem_places_of_visit {v : Visited} (hv : v ∈ scriptVisits statements) :
    (v.path, v.node) ∈ (scriptTree statements).places := by
  rw [← places_eq_visits _ rootId .start]
  exact List.mem_map_of_mem (f := fun v : Visited => (v.path, v.node)) hv

/-- Of a visited node and the node above it, addresses lead to both. -/
theorem around_of_visit_above {kind : Label → Bool} {u v : Visited} {i : Nat}
    (hu : u ∈ scriptVisits statements) (hv : v ∈ scriptVisits statements)
    (hpath : v.path = u.path ++ [i]) : (scriptTree statements).around kind v.path
      = if kind u.node.label then some u.path
        else (scriptTree statements).around kind u.path := by
  have hat := Tree.at?_of_mem_places (mem_places_of_visit hv)
  rw [hpath] at hat ⊢
  exact Tree.around_concat (Tree.at?_of_mem_places (mem_places_of_visit hu)) hat

end

/-! ## Owners and scopes -/

/-- The scope of a number is that of the node at an address, or the root. -/
def Owns (statements : List Tree) (owner : Option (List Nat)) (id : Nat) : Prop :=
  match owner with
  | none => id = rootId
  | some path => ∃ v ∈ scriptVisits statements, v.path = path ∧ v.opens = true ∧ v.inner = id

section

variable {statements : List Tree} {owner owner' : Option (List Nat)} {id id' : Nat} {v : Visited}

/-- An owner has one scope. -/
theorem Owns.scope_eq (h : Owns statements owner id) (h' : Owns statements owner id') :
    id = id' := by
  cases owner with
  | none => exact h.trans h'.symm
  | some path =>
    obtain ⟨v, hv, hpath, -, rfl⟩ := h
    obtain ⟨w, hw, hpath', -, rfl⟩ := h'
    rw [Tree.eq_of_path_eq hv hw (hpath.trans hpath'.symm)]

theorem inner_ne_root (hv : v ∈ scriptVisits statements) (hopens : v.opens = true) :
    v.inner ≠ rootId := by
  intro h
  have hlt := (grown_build statements).scope_lt_inner v hv hopens
  rw [h] at hlt
  exact absurd hlt (Nat.not_lt_zero _)

/-- A scope has one owner. -/
theorem Owns.owner_eq (h : Owns statements owner id) (h' : Owns statements owner' id) :
    owner = owner' := by
  match owner, owner' with
  | none, none => rfl
  | none, some _ =>
    obtain ⟨v, hv, -, hopens, hinner⟩ := h'
    exact absurd (hinner.trans h) (inner_ne_root hv hopens)
  | some _, none =>
    obtain ⟨v, hv, -, hopens, hinner⟩ := h
    exact absurd (hinner.trans h') (inner_ne_root hv hopens)
  | some _, some _ =>
    obtain ⟨v, hv, rfl, hopens, hinner⟩ := h
    obtain ⟨w, hw, rfl, hwopens, hwinner⟩ := h'
    rw [(grown_build statements).eq_of_inner_eq hv hw hopens hwopens
      (hinner.trans hwinner.symm)]

/-- The scope that is current at a place is that of the innermost node around it that opens one. -/
theorem owns_scope (hv : v ∈ scriptVisits statements) :
    Owns statements ((scriptTree statements).around Label.opens v.path) v.scope := by
  generalize hpath : v.path = path
  induction path using List.reverseRecOn generalizing v with
  | nil =>
    rw [Tree.around_nil]
    exact scope_of_path_nil hv hpath
  | append_singleton path i ih =>
    obtain ⟨u, hu, rfl, hinner⟩ := Tree.exists_visit_around hv hpath
    rw [← hpath, around_of_visit_above hu hv hpath, ← hinner]
    by_cases hopens : u.node.label.opens = true
    · rw [if_pos hopens]
      exact ⟨u, hu, rfl, hopens, rfl⟩
    · have hcloses : u.opens = false := by simpa [Visited.opens] using hopens
      rw [if_neg hopens, (grown_build statements).inner_eq_scope u hu hcloses]
      exact ih hu rfl

theorem hoistsAt_inner (hv : v ∈ scriptVisits statements) (hopens : v.opens = true) :
    (ScopeTree.build statements).hoistsAt v.inner = v.node.label.hoists := by
  obtain ⟨s, hs, hkind, -⟩ := (grown_build statements).exists_scope_inner hv hopens
  have hroot : s.kind ≠ .root := by
    intro h
    rw [h] at hkind
    exact absurd hkind (Label.scopeKind?_ne_root _)
  rw [hoistsAt, hs, Label.hoists, hkind]
  simp [hroot]

theorem hoistTarget_root (statements : List Tree) :
    (ScopeTree.build statements).hoistTarget rootId = rootId := by
  rw [hoistTarget, chain_root, List.find?_singleton]
  split <;> rfl

/-- What is hoisted from a place goes to the scope of the innermost function around it. -/
theorem owns_hoistTarget (hv : v ∈ scriptVisits statements) :
    Owns statements ((scriptTree statements).around Label.hoists v.path)
      ((ScopeTree.build statements).hoistTarget v.scope) := by
  generalize hpath : v.path = path
  induction path using List.reverseRecOn generalizing v with
  | nil =>
    rw [Tree.around_nil, scope_of_path_nil hv hpath, hoistTarget_root]
    rfl
  | append_singleton path i ih =>
    obtain ⟨u, hu, rfl, hinner⟩ := Tree.exists_visit_around hv hpath
    rw [← hpath, around_of_visit_above hu hv hpath, ← hinner, hoistTarget, chain_inner hu]
    cases hopens : u.opens with
    | false =>
      have hhoists : u.node.label.hoists = false := by
        by_contra hhoists
        have := Label.opens_of_hoists (by simpa using hhoists)
        exact absurd (hopens.symm.trans this) (by simp)
      rw [hhoists]
      exact ih hu rfl
    | true =>
      rw [if_pos rfl, List.singleton_append, List.find?_cons, hoistsAt_inner hu hopens]
      cases hhoists : u.node.label.hoists with
      | true => exact ⟨u, hu, rfl, hopens, rfl⟩
      | false => exact ih hu rfl

end

/-! ## Names of scopes -/

section

variable (l : Label) (s : Span) (cs : List Tree)

theorem groupNames_innerNames : groupNames (innerNames l cs) = (Tree.node l s cs).headNames := by
  cases l with
  | function form async generator wrapped quiet =>
    rcases cs with _ | ⟨name, _ | ⟨parameters, rest⟩⟩ <;> cases form <;>
      simp [innerNames, groupNames, Tree.headNames, Tree.patternNames]
  | arrow => cases cs <;> simp [innerNames, groupNames, Tree.headNames, Tree.patternNames]
  | catchClause => cases cs <;> simp [innerNames, groupNames, Tree.headNames, Tree.patternNames]
  | _ => rfl

/-- Names that a node declares in the scope around it belong there, or are hoisted from there. -/
theorem mem_outerNames_iff (t : ScopeTree) {current id : Nat} {x : String} :
    id = t.outerTarget l current ∧ x ∈ groupNames (outerNames l cs) ↔
      id = current ∧ x ∈ (Tree.node l s cs).blockNames
      ∨ id = t.hoistTarget current ∧ x ∈ (Tree.node l s cs).hoistedNames := by
  have hdeclarators (kind : VarKind) : groupNames (outerNames (.variables kind) cs)
      = cs.flatMap fun d => (d.children.headD .absent).patternNames := by
    rw [outerNames, groupNames, List.flatMap_map]
    rfl
  by_cases hvariables : ∃ kind, l = .variables kind
  · obtain ⟨kind, rfl⟩ := hvariables
    cases kind <;> simp [outerTarget, hdeclarators, Tree.blockNames, Tree.hoistedNames]
  · cases l with
    | function form async generator wrapped quiet =>
      cases form <;> cases cs <;> simp [outerTarget, outerNames, groupNames, Tree.blockNames,
        Tree.hoistedNames, Tree.patternNames]
    | classNode form =>
      cases form <;> simp [outerTarget, outerNames, groupNames, Tree.blockNames, Tree.hoistedNames]
    | _ => first
      | exact absurd ⟨_, rfl⟩ hvariables
      | simp [outerTarget, outerNames, groupNames, Tree.blockNames, Tree.hoistedNames]

end

/-- What a visit puts where. -/
theorem Visited.puts_iff {t : ScopeTree} {v : Visited} {id : Nat} {x : String} :
    v.Puts t id x ↔ (id = rootId ∧ v.node.label.isImport = true ∧ x ∈ v.node.patternNames)
      ∨ (id = v.scope ∧ x ∈ v.node.blockNames)
      ∨ (id = t.hoistTarget v.scope ∧ x ∈ v.node.hoistedNames)
      ∨ (id = v.inner ∧ x ∈ v.node.headNames) := by
  obtain ⟨path, ⟨l, s, cs⟩, scope, inner⟩ := v
  unfold Visited.Puts
  by_cases hl : l.isImport
  · -- An import has no names of the other kinds.
    rw [Tree.label_node, if_pos hl]
    cases l with
    | importStatement phase bare =>
      simp [Label.isImport, Tree.patternNames, Tree.blockNames, Tree.hoistedNames, Tree.headNames]
    | _ => exact absurd hl (by simp [Label.isImport])
  · rw [Tree.label_node, if_neg hl, Tree.children_node, mem_outerNames_iff l s cs,
      groupNames_innerNames l s cs]
    simp [hl, or_assoc]

section

variable {statements : List Tree} {owner : Option (List Nat)} {id : Nat} {x : String}

/-- Only a node that opens a scope declares names for its own parts. -/
theorem opens_of_mem_headNames {e : Tree} (hx : x ∈ e.headNames) : e.label.opens = true := by
  unfold Tree.headNames at hx
  split at hx <;> first | rfl | exact absurd hx (by simp)

/-- The names of a scope are those that belong to its owner. -/
theorem declaresAt_iff_declares (hid : Owns statements owner id) :
    (ScopeTree.build statements).declaresAt x id = true
      ↔ (scriptTree statements).Declares x owner := by
  have hstart : ScopeTree.start.declaresAt x id = false := by
    cases id <;> rfl
  rw [(grown_build statements).names id x, hstart]
  simp only [Bool.false_eq_true, false_or, Visited.puts_iff]
  constructor
  · rintro ⟨v, hv, ⟨hroot, himport, hx⟩ | ⟨hscope, hx⟩ | ⟨hscope, hx⟩ | ⟨hscope, hx⟩⟩
    · obtain rfl : owner = none := hid.owner_eq hroot
      exact .imported (mem_places_of_visit hv) himport hx
    · obtain rfl := hid.owner_eq (hscope ▸ owns_scope hv)
      exact .block (mem_places_of_visit hv) hx
    · obtain rfl := hid.owner_eq (hscope ▸ owns_hoistTarget hv)
      exact .hoisted (mem_places_of_visit hv) hx
    · obtain rfl : owner = some v.path :=
        hid.owner_eq ⟨v, hv, rfl, opens_of_mem_headNames hx, hscope.symm⟩
      exact .head (mem_places_of_visit hv) hx
  · intro h
    cases h with
    | block he hx =>
      obtain ⟨v, hv, rfl, rfl⟩ := exists_visit_of_mem_places he
      exact ⟨v, hv, .inr (.inl ⟨hid.scope_eq (owns_scope hv), hx⟩)⟩
    | hoisted he hx =>
      obtain ⟨v, hv, rfl, rfl⟩ := exists_visit_of_mem_places he
      exact ⟨v, hv, .inr (.inr (.inl ⟨hid.scope_eq (owns_hoistTarget hv), hx⟩))⟩
    | head he hx =>
      obtain ⟨v, hv, rfl, rfl⟩ := exists_visit_of_mem_places he
      have howns : Owns statements (some v.path) v.inner :=
        ⟨v, hv, rfl, opens_of_mem_headNames hx, rfl⟩
      exact ⟨v, hv, .inr (.inr (.inr ⟨hid.scope_eq howns, hx⟩))⟩
    | imported he himport hx =>
      obtain ⟨v, hv, rfl, rfl⟩ := exists_visit_of_mem_places he
      exact ⟨v, hv, .inl ⟨hid, himport, hx⟩⟩

/-- The names of a scope, given by its owner. -/
theorem mem_names_iff_declares {scope : Scope} (hid : Owns statements owner id)
    (hscope : (ScopeTree.build statements).scope? id = some scope) :
    x ∈ scope.names ↔ (scriptTree statements).Declares x owner := by
  have hdeclares : (ScopeTree.build statements).declaresAt x id = scope.declares x := by
    rw [declaresAt, hscope]
  rw [← declaresAt_iff_declares hid, hdeclares]
  simp [Scope.names, Scope.declares]

end

/-- Every scope but the root was opened for some node. -/
theorem exists_opener {statements : List Tree} {id : Nat} {scope : Scope}
    (hscope : (ScopeTree.build statements).scope? id = some scope) (hid : id ≠ rootId) :
    ∃ v ∈ scriptVisits statements, v.opens = true ∧ v.inner = id :=
  (grown_build statements).exists_opener (Nat.pos_of_ne_zero hid)
    (List.getElem?_eq_some_iff.mp hscope).1

/-! ## The scopes of a script -/

/-- Take a script in which no two nodes that open scopes have the same span. It has a root scope, and
one scope of its own for every function, arrow, block, loop and handler, which is found by the span
of the node. The names of the root are the imported ones and what is declared there: by `var` outside
of every function, and by any other declaration outside of every node that opens a scope. The names
of the scope of a node are those that the node declares for its parts, those that a `var` declares
inside of it and of no function further in, and those that any other declaration inside of it and of
no scope further in declares. -/
theorem build_declares_exactly (statements : List Tree)
    (hspans : (scriptTree statements).openSpans.Nodup) :
    let scopes := ScopeTree.build statements
    let script := scriptTree statements
    (∀ x, x ∈ scopes.root.names ↔ script.Declares x none)
    ∧ (∀ path e, (path, e) ∈ script.places → e.label.opens = true →
      ∃ id scope, scopes.scopeOf? e.span = some id ∧ id ≠ rootId ∧ scopes.scope? id = some scope
        ∧ e.label.scopeKind? = some scope.kind
        ∧ ∀ x, x ∈ scope.names ↔ script.Declares x (some path))
    ∧ ∀ id scope, scopes.scope? id = some scope → id = rootId
        ∨ ∃ path e, (path, e) ∈ script.places ∧ e.label.opens = true
          ∧ scopes.scopeOf? e.span = some id := by
  intro scopes script
  have hgrown := grown_build statements
  refine ⟨fun x => ?_, fun path e he hopens => ?_, fun id scope hscope => ?_⟩
  · have hroot : scopes.scope? rootId = some scopes.root := by
      have hlength : scopes.scopes.length = 1 + (openers (scriptVisits statements)).length :=
        hgrown.length_eq
      obtain ⟨first, rest, hscopes⟩ :=
        List.exists_cons_of_length_pos (l := scopes.scopes) (by omega)
      rw [scope?, root, hscopes]
      rfl
    have howns : Owns statements none rootId := rfl
    exact mem_names_iff_declares howns hroot
  · obtain ⟨v, hv, rfl, rfl⟩ := exists_visit_of_mem_places he
    obtain ⟨scope, hscope, hkind, -⟩ := hgrown.exists_scope_inner hv hopens
    refine ⟨v.inner, scope, scopeOf?_build hspans (mem_openers.mpr ⟨hv, hopens⟩),
      inner_ne_root hv hopens, hscope, hkind, fun x => ?_⟩
    have howns : Owns statements (some v.path) v.inner := ⟨v, hv, rfl, hopens, rfl⟩
    exact mem_names_iff_declares howns hscope
  · by_cases hid : id = rootId
    · exact Or.inl hid
    · obtain ⟨v, hv, hopens, rfl⟩ := exists_opener hscope hid
      exact Or.inr ⟨v.path, v.node, mem_places_of_visit hv, hopens,
        scopeOf?_build hspans (mem_openers.mpr ⟨hv, hopens⟩)⟩

/-- A function holds its parameters and a `var` from a block inside of it; `let` stays in the block,
what an inner arrow declares stays in the arrow, and the class of a default export is declared
nowhere. -/
theorem build_declares_function :
    let source := "import a from 'm'; export function f(p, \x7b q = r => r \x7d) \x7b "
      ++ "\x7b var v = () => \x7b var u; \x7d; let k; \x7d \x7d export default class C \x7b \x7d"
    let statements := (programTree source.toList).statements
    let scopes := ScopeTree.build statements
    let script := scriptTree statements
    (scopes.root.names = ["a", "f"] ∧ ∀ x, x ∈ ["a", "f"] ↔ script.Declares x none)
    ∧ ∃ id scope, scopes.scope? id = some scope ∧ scope.kind = .function
      ∧ scope.names = ["p", "q", "v"]
      ∧ ∀ x, x ∈ ["p", "q", "v"] ↔ script.Declares x (some [1, 0]) := by
  intro source statements scopes script
  -- What the theorem asks of the script, and the names that the scopes hold.
  obtain ⟨hspans, hroot, place, hplace, ⟨hpath, hlabel⟩, hnames⟩ : script.openSpans.Nodup
      ∧ scopes.root.names = ["a", "f"]
      ∧ ∃ place ∈ script.places, (place.1 = [1, 0] ∧ place.2.label.scopeKind? = some .function)
        ∧ ((scopes.scopeOf? place.2.span).bind scopes.scope?).map Scope.names
          = some ["p", "q", "v"] := by decide +kernel
  obtain ⟨hdeclared, hscopes, -⟩ := build_declares_exactly statements hspans
  have hopens : place.2.label.opens = true := by rw [Label.opens, hlabel]; rfl
  obtain ⟨id, scope, hid, -, hscope, hkind, hscopeNames⟩ :=
    hscopes place.1 place.2 hplace hopens
  have hnames : scope.names = ["p", "q", "v"] := by
    rw [hid, Option.bind_some, hscope] at hnames
    exact Option.some.inj hnames
  refine ⟨⟨hroot, fun x => hroot ▸ hdeclared x⟩, id, scope, hscope, ?_, hnames, fun x => ?_⟩
  · exact Option.some.inj (hkind.symm.trans hlabel)
  · rw [← hnames, ← hpath]
    exact hscopeNames x

end Reactive.Script
