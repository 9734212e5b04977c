/-
  A walk with a cursor replays the building of scopes.

  A later walk over a script finds its scopes again by the spans of nodes. It stops at every node
  with the cursor that it has there: it enters the scope of a node before the parts of the node and
  leaves it behind them. Main statement: if no two nodes that open scopes have the same span, such a
  walk stops at the nodes that were visited when the scopes were built, in the same order and each
  in the scope that was current then, enters every scope, and ends where it started. What the
  passes over a script find at a node, they find with the cursor of its stop.
-/
import Reactive.Proofs.Facts.Consistency
import Reactive.Proofs.Script.Outline
import Reactive.Script.Parse

namespace Reactive.Script

/-! ## Stops -/

/-- A stop of a walk: the node at an address and the cursor there. -/
structure Stop where
  path : List Nat
  node : Tree
  cursor : ScopeCursor
  /-- The node is part of an import. -/
  imported : Bool

/-- The stop as seen from a node of which the tree is the part of a number. -/
def Stop.below (i : Nat) (s : Stop) : Stop := { s with path := i :: s.path }

/-- The stop as a part of an import. -/
def Stop.hidden (s : Stop) : Stop := { s with imported := true }

/-- The address, the node and the scope of a stop. -/
def Stop.place (s : Stop) : List Nat × Tree × Nat := (s.path, s.node, s.cursor.current)

/-- The address, the node and the scope of a visit. -/
def Visited.place (v : Visited) : List Nat × Tree × Nat := (v.path, v.node, v.scope)

/-- Leaving a scope that was just entered. -/
theorem leave_of_enter? {c inside : ScopeCursor} {s : Span} (h : c.enter? s = some inside) :
    inside.leave = c := by
  obtain ⟨id, -, rfl⟩ := Option.map_eq_some_iff.mp h
  rfl

/-- What a walk does at a node. If the node opens scopes, the cursor tries to enter before the
parts, and leaves behind them what it has entered. -/
def walkNode (l : Label) (s : Span) (parts : List (Tree × (ScopeCursor → List Stop × ScopeCursor)))
    (cursor : ScopeCursor) : List Stop × ScopeCursor :=
  let here : Stop := ⟨[], .node l s (parts.map (·.1)), cursor, false⟩
  let stops (below : List Stop) := here :: if l.isImport then below.map Stop.hidden else below
  let through := inTurn Stop.below 0 (parts.map (·.2))
  match l.scopeKind? with
  | none => (stops (through cursor).1, (through cursor).2)
  | some _ => match cursor.enter? s with
    | none => (stops (through cursor).1, (through cursor).2)
    | some inside => (stops (through inside).1, (through inside).2.leave)

/-- At a node whose parts lead back to where they started, the walk goes through them with the
cursor inside the node and comes back. -/
theorem walkNode_eq {l : Label} {s : Span}
    {parts : List (Tree × (ScopeCursor → List Stop × ScopeCursor))} {cursor : ScopeCursor}
    (h : (inTurn Stop.below 0 (parts.map (·.2)) (cursor.inside l s)).2 = cursor.inside l s) :
    walkNode l s parts cursor =
      let below := (inTurn Stop.below 0 (parts.map (·.2)) (cursor.inside l s)).1
      (⟨[], .node l s (parts.map (·.1)), cursor, false⟩
        :: if l.isImport then below.map Stop.hidden else below, cursor) := by
  unfold walkNode
  unfold ScopeCursor.inside at h ⊢
  cases hkind : l.scopeKind? with
  | none =>
    rw [hkind] at h
    exact congrArg (Prod.mk _) h
  | some kind =>
    rw [hkind] at h
    cases henter : cursor.enter? s with
    | none =>
      rw [henter] at h
      exact congrArg (Prod.mk _) h
    | some inside =>
      rw [henter] at h
      exact congrArg (Prod.mk _) ((congrArg ScopeCursor.leave h).trans (leave_of_enter? henter))

namespace Tree

/-- A walk with a cursor: the stops, and the cursor in the end. -/
def walked (t : Tree) : ScopeCursor → List Stop × ScopeCursor := t.fold walkNode

/-- Walks through some parts lead back to where they started, if a walk through each does. -/
theorem inTurn_walked_snd {cs : List Tree}
    (h : ∀ c ∈ cs, ∀ cursor, (c.walked cursor).2 = cursor) (i : Nat) (inside : ScopeCursor) :
    (inTurn Stop.below i (cs.map walked) inside).2 = inside := by
  induction cs generalizing i with
  | nil => rfl
  | cons c cs ih =>
    rw [List.map_cons, inTurn]
    dsimp only
    rw [h c List.mem_cons_self]
    exact ih (fun c hc => h c (List.mem_cons_of_mem _ hc)) (i + 1)

/-- A walk ends where it started. -/
theorem walked_snd (t : Tree) (cursor : ScopeCursor) : (t.walked cursor).2 = cursor := by
  induction t using ind generalizing cursor with
  | node l s cs ih =>
    rw [walked, fold_node, walkNode_eq]
    rw [List.map_map]
    exact inTurn_walked_snd ih 0 _

/-- The stops in some parts, numbered from a number on. -/
def stopsIn (cs : List Tree) (inside : ScopeCursor) (i : Nat) : List Stop :=
  (inTurn Stop.below i (cs.map walked) inside).1

theorem stopsIn_cons (c : Tree) (cs : List Tree) (inside : ScopeCursor) (i : Nat) :
    stopsIn (c :: cs) inside i
      = (c.walked inside).1.map (Stop.below i) ++ stopsIn cs inside (i + 1) := by
  rw [stopsIn, List.map_cons, inTurn]
  dsimp only
  rw [walked_snd]
  rfl

/-- The stops of a walk: at the node, and then in its parts with the cursor inside the node. -/
theorem walked_node (l : Label) (s : Span) (cs : List Tree) (cursor : ScopeCursor) :
    ((node l s cs).walked cursor).1 = ⟨[], node l s cs, cursor, false⟩ ::
      if l.isImport then (stopsIn cs (cursor.inside l s) 0).map Stop.hidden
      else stopsIn cs (cursor.inside l s) 0 := by
  have hparts : cs.map ((·.1) ∘ fun c => (c, c.fold walkNode)) = cs := List.map_id' cs
  rw [walked, fold_node, walkNode_eq]
  · dsimp only
    rw [List.map_map, List.map_map, hparts]
    rfl
  · rw [List.map_map]
    exact inTurn_walked_snd (fun c _ => walked_snd c) 0 _

/-- The stops in the parts of a node are collected part by part. -/
theorem stopsIn_eq_gather (cs : List Tree) (inside : ScopeCursor) :
    stopsIn cs inside 0 = gather cs fun i c => (c.walked inside).1.map (Stop.below i) := by
  have hfrom : ∀ i, stopsIn cs inside i
      = (cs.zipIdx i).flatMap fun x => (x.1.walked inside).1.map (Stop.below x.2) := by
    induction cs with
    | nil => exact fun _ => rfl
    | cons c cs ih => exact fun i => by rw [stopsIn_cons, List.zipIdx_cons, List.flatMap_cons, ih]
  exact hfrom 0

theorem mem_stopsIn {cs : List Tree} {inside : ScopeCursor} {stop : Stop} :
    stop ∈ stopsIn cs inside 0 ↔
      ∃ (i : Nat) (c : Tree), cs[i]? = some c ∧ ∃ u ∈ (c.walked inside).1, u.below i = stop := by
  simp only [stopsIn_eq_gather, mem_gather, List.mem_map]

/-- A walk goes on into the parts of a node, with the cursor inside the node. -/
theorem exists_stop_of_part {l : Label} {s : Span} {cs : List Tree} {cursor : ScopeCursor}
    {c : Tree} (hc : c ∈ cs) {u : Stop} (hu : u ∈ (c.walked (cursor.inside l s)).1) :
    ∃ stop ∈ ((node l s cs).walked cursor).1, stop.node = u.node ∧ stop.cursor = u.cursor := by
  obtain ⟨i, hi⟩ := List.getElem?_of_mem hc
  have hbelow : u.below i ∈ stopsIn cs (cursor.inside l s) 0 :=
    mem_stopsIn.mpr ⟨i, c, hi, u, hu, rfl⟩
  rw [walked_node]
  by_cases hl : l.isImport
  · rw [if_pos hl]
    exact ⟨(u.below i).hidden, List.mem_cons_of_mem _ (List.mem_map_of_mem hbelow), rfl, rfl⟩
  · rw [if_neg hl]
    exact ⟨u.below i, List.mem_cons_of_mem _ hbelow, rfl, rfl⟩

/-- A stop of a walk is at the node, or comes from a stop in one of its parts. -/
theorem cases_of_mem_walked {l : Label} {s : Span} {cs : List Tree} {cursor : ScopeCursor}
    {stop : Stop} (h : stop ∈ ((node l s cs).walked cursor).1) :
    stop = ⟨[], node l s cs, cursor, false⟩
      ∨ ∃ (i : Nat) (c : Tree), cs[i]? = some c ∧ ∃ u ∈ (c.walked (cursor.inside l s)).1,
        stop.path = i :: u.path ∧ stop.node = u.node ∧ stop.cursor = u.cursor := by
  rw [walked_node, List.mem_cons] at h
  rcases h with h | h
  · exact Or.inl h
  · split at h
    · obtain ⟨v, hv, rfl⟩ := List.mem_map.mp h
      obtain ⟨i, c, hc, u, hu, rfl⟩ := mem_stopsIn.mp hv
      exact Or.inr ⟨i, c, hc, u, hu, rfl, rfl, rfl⟩
    · obtain ⟨i, c, hc, u, hu, rfl⟩ := mem_stopsIn.mp h
      exact Or.inr ⟨i, c, hc, u, hu, rfl, rfl, rfl⟩

/-- A walk stops at the nodes of the tree, each in the scope of its place. -/
theorem at?_of_mem_walked {t : Tree} {cursor : ScopeCursor} {stop : Stop}
    (h : stop ∈ (t.walked cursor).1) : t.at? stop.path = some stop.node
      ∧ stop.cursor.tree = cursor.tree
      ∧ stop.cursor.current = cursor.tree.scopeAt cursor.current t stop.path := by
  induction t using ind generalizing cursor stop with
  | node l s cs ih =>
    rcases cases_of_mem_walked h with rfl | ⟨i, c, hc, u, hu, hpath, hnode, hcursor⟩
    · exact ⟨at?_nil _, rfl, by simp⟩
    · obtain ⟨hat, htree, hcurrent⟩ := ih c (List.mem_of_getElem? hc) hu
      rw [ScopeCursor.tree_inside] at htree hcurrent
      rw [ScopeCursor.current_inside] at hcurrent
      rw [hpath, hnode, hcursor, at?_cons, hc, ScopeTree.scopeAt_cons _ _ hc]
      exact ⟨hat, htree, hcurrent⟩

/-! ## What the passes find -/

/-- The writes to the root are found stop by stop. -/
theorem rootWrites_eq_walked (t : Tree) (cursor : ScopeCursor) :
    t.rootWrites cursor = (t.walked cursor).1.flatMap fun stop =>
      stop.node.writtenNames.filter stop.cursor.resolvesToRoot := by
  induction t using ind generalizing cursor with
  | node l s cs ih =>
    let found (stop : Stop) := stop.node.writtenNames.filter stop.cursor.resolvesToRoot
    have hparts : (stopsIn cs (cursor.inside l s) 0).flatMap found
        = cs.flatMap fun c => c.rootWrites (cursor.inside l s) := by
      rw [stopsIn_eq_gather, flatMap_gather, ← gather_const]
      refine gather_congr fun i c hc => ?_
      rw [ih c (List.mem_of_getElem? hc), List.flatMap_map]
      rfl
    rw [rootWrites, fold_node, walked_node, List.flatMap_cons]
    simp only [List.map_map, Function.comp_def, List.map_id', List.flatMap_map]
    congr 1
    split
    · rw [List.flatMap_map]
      exact hparts.symm
    · exact hparts.symm

/-- A walk stops once at every node, in document order. -/
theorem paths_of_walked (t : Tree) (cursor : ScopeCursor) :
    (t.walked cursor).1.map (·.path) = t.addresses := by
  induction t using ind generalizing cursor with
  | node l s cs ih =>
    have hparts : (stopsIn cs (cursor.inside l s) 0).map (·.path)
        = gather cs fun i c => c.addresses.map (i :: ·) := by
      rw [stopsIn_eq_gather, map_gather]
      refine gather_congr fun i c hc => ?_
      rw [← ih c (List.mem_of_getElem? hc) (cursor.inside l s), List.map_map, List.map_map]
      rfl
    rw [walked_node, addresses_node, List.map_cons]
    congr 1
    split
    · rw [List.map_map]
      exact hparts
    · exact hparts

end Tree

/-! ## Effects at stops -/

/-- What is found in the effects of a tree is found at a stop, if it is so for the effects of
variables and for the own writes of all other nodes. -/
theorem exists_stop_of_found (found : Effects → List String) (Holds : Tree → ScopeCursor → Prop)
    {globals : List String} {x : String} (hnone : found .none = [])
    (happend : ∀ a b : Effects, found (a.append b) = found a ++ found b)
    (hvariable : ∀ name s cs cursor usage,
      x ∈ found ((Tree.node (.identifier name) s cs).effects globals cursor usage) →
      Holds (.node (.identifier name) s cs) cursor)
    (hown : ∀ t cursor, x ∈ found ⟨t.writtenNames.filter (isGlobalAt globals cursor), []⟩ →
      Holds t cursor) (t : Tree) (cursor : ScopeCursor) (usage : Usage)
    (h : x ∈ found (t.effects globals cursor usage)) :
    ∃ stop ∈ (t.walked cursor).1, Holds stop.node stop.cursor := by
  induction t using Tree.ind generalizing cursor usage with
  | node l s cs ih =>
    have hself : (⟨[], .node l s cs, cursor, false⟩ : Stop)
        ∈ ((Tree.node l s cs).walked cursor).1 := by
      rw [Tree.walked_node]
      exact List.mem_cons_self
    by_cases hl : ∃ name, l = .identifier name
    · obtain ⟨name, rfl⟩ := hl
      exact ⟨_, hself, hvariable name s cs cursor usage h⟩
    · rw [found_node found hnone happend globals fun name heq => hl ⟨name, heq⟩] at h
      rcases List.mem_append.mp h with hwritten | hparts
      · exact ⟨_, hself, hown _ cursor hwritten⟩
      · obtain ⟨i, c, hi, hx⟩ := mem_gather.mp hparts
        have hc := List.mem_of_getElem? hi
        obtain ⟨u, hu, hholds⟩ := ih c hc _ _ hx
        obtain ⟨stop, hstop, hnode, hcursor⟩ := Tree.exists_stop_of_part hc hu
        exact ⟨stop, hstop, by rwa [hnode, hcursor]⟩

/-- The effects of a variable are at most one read. -/
theorem effects_identifier (globals : List String) (name : String) (s : Span) (cs : List Tree)
    (cursor : ScopeCursor) (usage : Usage) :
    ((Tree.node (.identifier name) s cs).effects globals cursor usage).writes = []
    ∧ ∀ x ∈ ((Tree.node (.identifier name) s cs).effects globals cursor usage).reads,
      x = name ∧ isGlobalAt globals cursor name = true := by
  rw [Tree.effects, Tree.fold_node]
  dsimp only
  split
  · rename_i hread
    simp only [Bool.and_eq_true] at hread
    exact ⟨rfl, fun x hx => ⟨List.mem_singleton.mp hx, hread.2⟩⟩
  · exact ⟨rfl, fun x hx => absurd hx (by simp [Effects.none])⟩

/-- The writes of a tree are found at the nodes that write. -/
theorem exists_stop_of_mem_writes {globals : List String} {t : Tree} {cursor : ScopeCursor}
    {usage : Usage} {x : String} (h : x ∈ (t.effects globals cursor usage).writes) :
    ∃ stop ∈ (t.walked cursor).1,
      x ∈ stop.node.writtenNames ∧ isGlobalAt globals stop.cursor x = true := by
  refine exists_stop_of_found Effects.writes
    (fun t cursor => x ∈ t.writtenNames ∧ isGlobalAt globals cursor x = true)
    rfl (fun _ _ => rfl) ?_ ?_ t cursor usage h
  · intro name s cs cursor usage hx
    rw [(effects_identifier globals name s cs cursor usage).1] at hx
    exact absurd hx (by simp)
  · exact fun _ _ hx => List.mem_filter.mp hx

/-- The reads of a tree are found at variables. -/
theorem exists_stop_of_mem_reads {globals : List String} {t : Tree} {cursor : ScopeCursor}
    {usage : Usage} {x : String} (h : x ∈ (t.effects globals cursor usage).reads) :
    ∃ stop ∈ (t.walked cursor).1,
      stop.node.label = .identifier x ∧ isGlobalAt globals stop.cursor x = true := by
  refine exists_stop_of_found Effects.reads
    (fun t cursor => t.label = .identifier x ∧ isGlobalAt globals cursor x = true)
    rfl (fun _ _ => rfl) ?_ ?_ t cursor usage h
  · intro name s cs cursor usage hx
    obtain ⟨rfl, hglobal⟩ := (effects_identifier globals name s cs cursor usage).2 x hx
    exact ⟨rfl, hglobal⟩
  · exact fun _ _ hx => absurd hx (by simp)

/-! ## Finding scopes again -/

namespace Tree

/-- The spans of the nodes that open scopes, in document order. Nothing in an import does. -/
def openSpans (t : Tree) : List Span :=
  t.fold fun l s parts =>
    if l.isImport then [] else (if l.opens then [s] else []) ++ parts.flatMap (·.2)

theorem openSpans_node (l : Label) (s : Span) (cs : List Tree) :
    (node l s cs).openSpans = if l.isImport then []
      else (if l.opens then [s] else []) ++ cs.flatMap openSpans := by
  rw [openSpans, fold_node, List.flatMap_map]
  rfl

/-- They are the spans of the visits that open scopes. -/
theorem openSpans_eq (t : Tree) (current : Nat) (scopes : ScopeTree) :
    (openers (t.recorded current scopes).1).map (·.node.span) = t.openSpans := by
  induction t using ind generalizing current scopes with
  | node l s cs ih =>
    rw [openSpans_node]
    by_cases hl : l.isImport
    · rw [recorded_import hl, if_pos hl]
      simp [openers, Visited.opens, opens_of_isImport hl]
    · rw [Bool.not_eq_true] at hl
      have hparts : ∀ (ts : List Tree), (∀ c ∈ ts, c ∈ cs) → ∀ i inner scopes,
          (openers (inTurn Visited.below i (ts.map fun c => c.recorded inner) scopes).1).map
            (·.node.span) = ts.flatMap openSpans := by
        intro ts
        induction ts with
        | nil => intros; rfl
        | cons c ts ihts =>
          intro hts i inner scopes
          rw [List.map_cons, inTurn, List.flatMap_cons]
          dsimp only
          rw [openers_append, List.map_append, openers_below, List.map_map,
            ihts fun c hc => hts c (List.mem_cons_of_mem _ hc),
            ← ih c (hts c List.mem_cons_self) inner scopes]
          rfl
      rw [recorded_node hl, if_neg (by simp [hl])]
      dsimp only
      rw [openers, List.filter_cons, ← openers]
      have hbelow := hparts cs (fun c hc => hc) 0 (scopes.entered l s cs current).1
        (scopes.entered l s cs current).2
      by_cases hopens : l.opens
      · simpa [Visited.opens, hopens] using hbelow
      · simpa [Visited.opens, hopens] using hbelow

end Tree

namespace ScopeTree

/-- Where spans differ, a span leads to the scope of its node. -/
theorem scopeOf?_of_nodup {t : ScopeTree} (h : (t.owners.map (·.1)).Nodup) {span : Span} {id : Nat}
    (hmem : (span, id) ∈ t.owners) : t.scopeOf? span = some id := by
  unfold scopeOf?
  cases hfind : t.owners.find? (·.1 == span) with
  | none => exact absurd (List.find?_eq_none.mp hfind _ hmem) (by simp)
  | some owner =>
    have hspan : owner.1 = span := by simpa using List.find?_some hfind
    rw [List.inj_on_of_nodup_map h (List.mem_of_find?_eq_some hfind) hmem hspan]
    rfl

theorem entered_fst_of_none (t : ScopeTree) {l : Label} (h : l.scopeKind? = none) (s : Span)
    (cs : List Tree) (current : Nat) : (t.entered l s cs current).1 = current := by
  simp only [entered, h]

end ScopeTree

/-- No stop in an import is a place of its own. -/
theorem filter_hidden (stops : List Stop) :
    (stops.map Stop.hidden).filter (fun stop => !stop.imported) = [] := by
  rw [List.filter_map, List.map_eq_nil_iff, List.filter_eq_nil_iff]
  simp [Stop.hidden]

/-- The spans of the visited nodes that open scopes lead a cursor to these scopes. -/
def Finds (cursor : ScopeCursor) (visits : List Visited) : Prop :=
  ∀ v ∈ openers visits, cursor.tree.scopeOf? v.node.span = some v.inner

/-- A walk through a tree stops at the nodes that building the scopes visits, in the same order and
each in the same scope, if its cursor starts in the same scope and finds those that are opened. -/
def Replays (t : Tree) : Prop :=
  ∀ (cursor : ScopeCursor) (current : Nat) (scopes : ScopeTree), cursor.current = current →
    Finds cursor (t.recorded current scopes).1 →
    ((t.walked cursor).1.filter fun stop => !stop.imported).map Stop.place
      = (t.recorded current scopes).1.map Visited.place

/-- A cursor that finds the scope of a node is inside the node where building is. -/
theorem current_inside_of_finds {cursor : ScopeCursor} {current : Nat} {scopes : ScopeTree}
    {l : Label} (hl : l.isImport = false) {s : Span} {cs : List Tree}
    (hcurrent : cursor.current = current)
    (hfinds : Finds cursor ((Tree.node l s cs).recorded current scopes).1) :
    (cursor.inside l s).current = (scopes.entered l s cs current).1 := by
  rw [ScopeCursor.current_inside, ScopeTree.scopeInside]
  cases hkind : l.scopeKind? with
  | none => rw [ScopeTree.entered_fst_of_none _ hkind, hcurrent]
  | some kind =>
    have hhead : ⟨[], .node l s cs, current, (scopes.entered l s cs current).1⟩
        ∈ openers ((Tree.node l s cs).recorded current scopes).1 :=
      mem_openers.mpr ⟨(Tree.mem_recorded_node hl).mpr (Or.inl rfl),
        by simp [Visited.opens, Label.opens, hkind]⟩
    have hspan := hfinds _ hhead
    rw [Tree.span_node] at hspan
    dsimp only
    rw [hspan]
    rfl

/-- Trees that are replayed one by one are replayed one after the other. -/
theorem places_of_parts {ts : List Tree} (h : ∀ c ∈ ts, Replays c) (i : Nat) (scopes : ScopeTree)
    {inside : ScopeCursor} {inner : Nat} (hinner : inside.current = inner)
    (hfinds : Finds inside
      (inTurn Visited.below i (ts.map fun c => c.recorded inner) scopes).1) :
    ((Tree.stopsIn ts inside i).filter fun stop => !stop.imported).map Stop.place
      = (inTurn Visited.below i (ts.map fun c => c.recorded inner) scopes).1.map Visited.place := by
  induction ts generalizing i scopes with
  | nil => rfl
  | cons c ts ih =>
    rw [List.map_cons, inTurn] at hfinds ⊢
    dsimp only at hfinds ⊢
    have hopeners := openers_append ((c.recorded inner scopes).1.map (Visited.below i))
      (inTurn Visited.below (i + 1) (ts.map fun c => c.recorded inner)
        (c.recorded inner scopes).2).1
    rw [openers_below] at hopeners
    -- The spans that the parts open are among those of the node.
    have hfirst := h c List.mem_cons_self inside inner scopes hinner fun v hv =>
      hfinds (v.below i) (hopeners ▸ List.mem_append_left _ (List.mem_map_of_mem hv))
    have hrest := ih (fun d hd => h d (List.mem_cons_of_mem _ hd)) (i + 1)
      (c.recorded inner scopes).2 fun v hv => hfinds v (hopeners ▸ List.mem_append_right _ hv)
    rw [Tree.stopsIn_cons, List.filter_append, List.map_append, List.map_append, hrest,
      List.filter_map, List.map_map, List.map_map]
    congr 1
    -- Places of a part differ from those of the node by the number of the part.
    have hbelow := congrArg (List.map fun place => (i :: place.1, place.2)) hfirst
    rw [List.map_map, List.map_map] at hbelow
    exact hbelow

theorem replays (t : Tree) : Replays t := by
  induction t using Tree.ind with
  | node l s cs ih =>
    intro cursor current scopes hcurrent hfinds
    by_cases hl : l.isImport
    · rw [Tree.walked_node, Tree.recorded_import hl, if_pos hl, List.filter_cons_of_pos rfl,
        filter_hidden]
      simp [Stop.place, Visited.place, hcurrent]
    · rw [Bool.not_eq_true] at hl
      have hparts := places_of_parts ih 0 (scopes.entered l s cs current).2
        (current_inside_of_finds hl hcurrent hfinds) fun v hv => by
          rw [ScopeCursor.tree_inside]
          refine hfinds v ?_
          rw [Tree.recorded_node hl]
          obtain ⟨hmem, hopens⟩ := mem_openers.mp hv
          exact mem_openers.mpr ⟨List.mem_cons_of_mem _ hmem, hopens⟩
      rw [Tree.walked_node, Tree.recorded_node hl, if_neg (by simp [hl]),
        List.filter_cons_of_pos rfl, List.map_cons, List.map_cons, hparts]
      simp [Stop.place, Visited.place, hcurrent]

/-! ## Scripts -/

/-- The spans of a script lead to the scopes that were opened for their nodes. -/
theorem scopeOf?_build {statements : List Tree}
    (hspans : (scriptTree statements).openSpans.Nodup) {v : Visited}
    (hv : v ∈ openers (scriptVisits statements)) :
    (ScopeTree.build statements).scopeOf? v.node.span = some v.inner := by
  have howners := (grown_build statements).owners
  refine ScopeTree.scopeOf?_of_nodup ?_ ?_
  · rw [howners, List.map_append, List.map_reverse, List.map_map]
    show (_ ++ []).Nodup
    rw [List.append_nil, List.nodup_reverse]
    show ((openers (scriptVisits statements)).map (·.node.span)).Nodup
    rwa [scriptVisits, Tree.openSpans_eq]
  · rw [howners]
    refine List.mem_append_left _ (List.mem_reverse.mpr ?_)
    exact List.mem_map_of_mem (f := fun v : Visited => (v.node.span, v.inner)) hv

/-- The places of a walk over a script are those of the visits. -/
theorem places_of_script {statements : List Tree}
    (hspans : (scriptTree statements).openSpans.Nodup) :
    (((scriptTree statements).walked (.start (ScopeTree.build statements))).1.filter
        fun stop => !stop.imported).map Stop.place
      = (scriptVisits statements).map Visited.place :=
  replays _ _ _ _ rfl fun _ hv => scopeOf?_build hspans hv

/-- The writes to the root are found at the stops of a walk over the script. -/
theorem rootMutations_eq_walked (scopes : ScopeTree) (statements : List Tree) :
    rootMutations scopes statements = (((scriptTree statements).walked (.start scopes)).1.flatMap
      fun stop => stop.node.writtenNames.filter stop.cursor.resolvesToRoot).eraseDups := by
  have hroot : (scriptTree statements).rootWrites (.start scopes)
      = statements.flatMap fun s => s.rootWrites (.start scopes) := by
    rw [scriptTree, Tree.rootWrites, Tree.fold_node, List.flatMap_map]
    rfl
  rw [← Tree.rootWrites_eq_walked, hroot]
  rfl

/-- Take a script in which no two nodes that open scopes have the same span, and walk over it with a
cursor over its scopes. The walk stops at every node once, in document order. Parts of imports
apart, the stops are at the nodes that were visited when the scopes were built, in the same order
and each in the scope that was current then; every scope is entered, and the walk ends at the root
where it started. The passes over the script go by the cursors of this walk: writes to the root,
effects of statements, and the scopes at addresses that announcements go by. -/
theorem walk_replays_build (statements : List Tree)
    (hspans : (scriptTree statements).openSpans.Nodup) :
    let scopes := ScopeTree.build statements
    let script := scriptTree statements
    let built := script.recorded ScopeTree.rootId .start
    let walk := script.walked (.start scopes)
    (built.2 = scopes ∧ walk.1.map (·.path) = script.addresses)
    ∧ (walk.1.filter fun stop => !stop.imported).map Stop.place = built.1.map Visited.place
    ∧ (∀ stop ∈ walk.1, stop.imported = false → stop.node.label.opens = true →
        (stop.cursor.enter? stop.node.span).isSome)
    ∧ (walk.2 = .start scopes ∧ walk.2.stack = [ScopeTree.rootId])
    ∧ rootMutations scopes statements = (walk.1.flatMap fun stop =>
        stop.node.writtenNames.filter stop.cursor.resolvesToRoot).eraseDups
    ∧ (∀ globals usage x,
        (x ∈ (script.effects globals (.start scopes) usage).writes → ∃ stop ∈ walk.1,
          x ∈ stop.node.writtenNames ∧ isGlobalAt globals stop.cursor x = true)
        ∧ (x ∈ (script.effects globals (.start scopes) usage).reads → ∃ stop ∈ walk.1,
          stop.node.label = .identifier x ∧ isGlobalAt globals stop.cursor x = true))
    ∧ ∀ stop ∈ walk.1, script.at? stop.path = some stop.node
        ∧ stop.cursor.current = scopes.scopeAt ScopeTree.rootId script stop.path := by
  intro scopes script built walk
  have hplaces : (walk.1.filter fun stop => !stop.imported).map Stop.place
      = built.1.map Visited.place := places_of_script hspans
  have hend : walk.2 = .start scopes := Tree.walked_snd script _
  refine ⟨⟨recorded_scriptTree_snd statements, Tree.paths_of_walked script _⟩, hplaces, ?_,
    ⟨hend, by rw [hend]; rfl⟩, rootMutations_eq_walked scopes statements, ?_, ?_⟩
  · intro stop hstop himported hopens
    -- The stop is the place of a visit, and the span of a visited node leads to its scope.
    have hmem : stop.place ∈ built.1.map Visited.place := by
      rw [← hplaces]
      exact List.mem_map_of_mem (List.mem_filter.mpr ⟨hstop, by simp [himported]⟩)
    obtain ⟨v, hv, hplace⟩ := List.mem_map.mp hmem
    have hnode : v.node = stop.node := congrArg (·.2.1) hplace
    have hfound := scopeOf?_build hspans
      (mem_openers.mpr ⟨hv, by rw [Visited.opens, hnode]; exact hopens⟩)
    have htree : stop.cursor.tree = scopes := (Tree.at?_of_mem_walked hstop).2.1
    rw [ScopeCursor.enter?, htree, ← hnode, hfound]
    rfl
  · exact fun globals usage x => ⟨exists_stop_of_mem_writes, exists_stop_of_mem_reads⟩
  · exact fun stop hstop =>
      ⟨(Tree.at?_of_mem_walked hstop).1, (Tree.at?_of_mem_walked hstop).2.2⟩

/-- A function in a block in a loop, and a handler. The six scopes have different spans, so a walk
enters all of them, and it stops at the two writes in the scopes of the function and of the block of
the handler. -/
theorem walk_replays_nested :
    let source := "for (const k of ks) \x7b run(() => n += k); \x7d "
      ++ "try \x7b \x7d catch (e) \x7b n = e; \x7d"
    let statements := (programTree source.toList).statements
    let walk := (scriptTree statements).walked (.start (ScopeTree.build statements))
    (scriptTree statements).openSpans.length = 6
    ∧ (∀ stop ∈ walk.1, stop.imported = false → stop.node.label.opens = true →
        (stop.cursor.enter? stop.node.span).isSome)
    ∧ walk.2.stack = [ScopeTree.rootId]
    ∧ (((walk.1.filter fun stop => !stop.imported).map Stop.place).filter fun place =>
        !place.2.1.writtenNames.isEmpty).map (·.2.2) = [3, 6] := by
  intro source statements walk
  -- What the theorem asks of the script, and where the writes were visited, computed at once.
  obtain ⟨hlength, hspans, hwrites⟩ : (scriptTree statements).openSpans.length = 6
      ∧ (scriptTree statements).openSpans.Nodup
      ∧ (((scriptVisits statements).map Visited.place).filter fun place =>
        !place.2.1.writtenNames.isEmpty).map (·.2.2) = [3, 6] := by decide +kernel
  obtain ⟨-, hplaces, henters, ⟨-, hstack⟩, -⟩ := walk_replays_build statements hspans
  refine ⟨hlength, henters, hstack, ?_⟩
  rw [hplaces]
  exact hwrites

end Reactive.Script
