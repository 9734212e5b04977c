/-
  Names of targets.

  Names are read off a target in one pass. Main statement: the names of a target are the variables
  that its leaves start at, each once, in the order in which the leaves stand. What is evaluated on
  the way to a leaf, an index, a key or a default, adds no name, and no reference outside of these
  is passed over, other than inside a leaf that starts at no variable.
-/
import Reactive.Proofs.Facts.Leaves

namespace Reactive.Script

/-! ## Order of first places -/

/-- An added element comes last. -/
theorem pair_sublist_concat {α : Type} {as : List α} {x y b : α} :
    [x, y].Sublist (as ++ [b]) ↔ [x, y].Sublist as ∨ (x ∈ as ∧ y = b) := by
  rw [List.sublist_append_iff]
  constructor
  · rintro ⟨front, back, heq, hfront, hback⟩
    rcases List.append_eq_cons_iff.mp heq.symm with ⟨rfl, rfl⟩ | ⟨front, rfl, hy⟩
    · exact absurd hback.length_le (by simp)
    · rcases List.append_eq_cons_iff.mp hy.symm with ⟨rfl, rfl⟩ | ⟨front, rfl, hnil⟩
      · exact .inr ⟨List.singleton_sublist.mp hfront, by simpa using hback⟩
      · obtain ⟨rfl, rfl⟩ := List.append_eq_nil_iff.mp hnil.symm
        exact .inl hfront
  · rintro (h | ⟨hx, rfl⟩)
    · exact ⟨[x, y], [], rfl, h, List.nil_sublist _⟩
    · exact ⟨[x], [y], rfl, List.singleton_sublist.mpr hx, List.Sublist.refl _⟩

theorem eraseDups_concat (as : List String) (b : String) :
    (as ++ [b]).eraseDups = if b ∈ as then as.eraseDups else as.eraseDups ++ [b] := by
  rw [List.eraseDups_append]
  split <;> simp_all [List.removeAll, List.eraseDups_cons]

/-- The first name has a place before all places of the second one, which has some. Places are
addresses, so an earlier one stands further to the left. -/
def Precedes (placed : List Nat → String → Prop) (x y : String) : Prop :=
  (∃ q, placed q y) ∧ ∃ p, placed p x ∧ ∀ q, placed q y → p < q

/-- A place behind all others matters only for a name that had none. -/
theorem precedes_concat {placed : List Nat → String → Prop} {r : List Nat} {b x y : String}
    (hlast : ∀ p a, placed p a → p < r) :
    Precedes (fun p a => placed p a ∨ (p = r ∧ a = b)) x y ↔
      Precedes placed x y ∨ ((∃ p, placed p x) ∧ y = b ∧ ∀ q, ¬ placed q b) := by
  constructor
  · rintro ⟨hy, p, hp, hfirst⟩
    by_cases hold : ∃ q, placed q y
    · obtain ⟨q, hq⟩ := hold
      rcases hp with hp | ⟨rfl, rfl⟩
      · exact .inl ⟨⟨q, hq⟩, p, hp, fun q hq => hfirst q (.inl hq)⟩
      · exact absurd (List.lt_trans (hlast q y hq) (hfirst q (.inl hq))) (List.lt_irrefl q)
    · obtain ⟨q, hq | ⟨rfl, rfl⟩⟩ := hy
      · exact absurd ⟨q, hq⟩ hold
      · rcases hp with hp | ⟨rfl, -⟩
        · exact .inr ⟨⟨p, hp⟩, rfl, fun q hq => hold ⟨q, hq⟩⟩
        · exact absurd (hfirst p (.inr ⟨rfl, rfl⟩)) (List.lt_irrefl p)
  · rintro (⟨⟨q, hq⟩, p, hp, hfirst⟩ | ⟨⟨p, hp⟩, rfl, hnone⟩)
    · refine ⟨⟨q, .inl hq⟩, p, .inl hp, ?_⟩
      rintro q (hq | ⟨rfl, rfl⟩)
      · exact hfirst q hq
      · exact hlast p x hp
    · refine ⟨⟨r, .inr ⟨rfl, rfl⟩⟩, p, .inl hp, ?_⟩
      rintro q (hq | ⟨rfl, -⟩)
      · exact absurd hq (hnone q)
      · exact hlast p x hp

/-- Without repetitions, names stand in the order of their first places. -/
theorem pair_sublist_eraseDups {places : List (List Nat × String)}
    (h : places.Pairwise fun a b => a.1 < b.1) {x y : String} :
    [x, y].Sublist (places.map (·.2)).eraseDups ↔ Precedes (fun p a => (p, a) ∈ places) x y := by
  -- A last place adds its name at the end, unless the name was there before.
  induction places using List.reverseRecOn with
  | nil => simp [Precedes]
  | append_singleton places last ih =>
    obtain ⟨r, b⟩ := last
    obtain ⟨hplaces, -, hbefore⟩ := List.pairwise_append.mp h
    have hlast (p : List Nat) (a : String) (hp : (p, a) ∈ places) : p < r :=
      hbefore (p, a) hp (r, b) (List.mem_singleton_self _)
    have hnames (a : String) : a ∈ places.map (·.2) ↔ ∃ p, (p, a) ∈ places := by simp
    simp only [List.mem_append, List.mem_singleton, Prod.mk.injEq]
    rw [precedes_concat hlast, ← ih hplaces, ← hnames, List.map_append, List.map_singleton,
      eraseDups_concat]
    split
    · rename_i hb
      obtain ⟨q, hq⟩ := (hnames b).mp hb
      exact ⟨.inl, (·.resolve_right fun hnew => hnew.2.2 q hq)⟩
    · rename_i hb
      rw [pair_sublist_concat, List.mem_eraseDups]
      have hnew (q : List Nat) : (q, b) ∉ places := fun hq => hb ((hnames b).mpr ⟨q, hq⟩)
      simp [hnew]

namespace Tree

/-! ## Leaves in order -/

/-- The variable that the leaf at an address starts at. -/
def leafName? (t : Tree) (path : List Nat) : Option String :=
  ((t.leaf? path).bind targetRoot?).map (·.1)

/-- The variables that the leaves of a target start at, in document order. -/
def leafNames (t : Tree) : List String := t.addresses.filterMap t.leafName?

/-- The same with the addresses of the leaves. -/
def leafPlaces (t : Tree) : List (List Nat × String) :=
  t.addresses.filterMap fun path => (t.leafName? path).map (path, ·)

theorem map_snd_leafPlaces (t : Tree) : t.leafPlaces.map (·.2) = t.leafNames := by
  rw [leafPlaces, leafNames, List.map_filterMap]
  refine List.filterMap_congr fun path _ => ?_
  rw [Option.map_map]
  exact Option.map_id'

theorem pairwise_leafPlaces (t : Tree) : t.leafPlaces.Pairwise fun a b => a.1 < b.1 := by
  refine List.pairwise_filterMap.mpr (t.pairwise_addresses.imp ?_)
  intro p q hlt x hx y hy
  obtain ⟨_, -, rfl⟩ := Option.map_eq_some_iff.mp hx
  obtain ⟨_, -, rfl⟩ := Option.map_eq_some_iff.mp hy
  exact hlt

/-- A node has the name of itself, if it is a leaf, and those of the parts that are targets. -/
theorem leafNames_node (l : Label) (s : Span) (cs : List Tree) : (node l s cs).leafNames
    = ((node l s cs).leafName? []).toList
      ++ gather cs fun i c => if l.leadsOn i then c.leafNames else [] := by
  have hpart (i : Nat) (c : Tree) (hc : cs[i]? = some c) :
      (c.addresses.map (i :: ·)).filterMap (node l s cs).leafName?
        = if l.leadsOn i then c.leafNames else [] := by
    rw [List.filterMap_map]
    split
    · rename_i hl
      refine List.filterMap_congr fun path _ => ?_
      rw [Function.comp_apply, leafName?, leaf?_cons hl hc, leafName?]
    · rename_i hl
      refine List.filterMap_eq_nil_iff.mpr fun path _ => ?_
      rw [Function.comp_apply, leafName?, leaf?, if_neg hl]
      rfl
  rw [leafNames, addresses_node, List.filterMap_cons, filterMap_gather, gather_congr hpart]
  cases (node l s cs).leafName? [] <;> rfl

theorem leafName?_nil {t : Tree} (h : t.label.isSingle) :
    t.leafName? [] = t.chainRoot?.map (·.1) := by
  rw [leafName?, leaf?_nil h, Option.bind_some, targetRoot?_of_isSingle h]

theorem leafNames_of_isSingle {t : Tree} (h : t.label.isSingle) :
    t.leafNames = (t.chainRoot?.map (·.1)).toList := by
  rw [← leafName?_nil h]
  obtain ⟨l, s, cs⟩ := t
  rw [label_node] at h
  rw [leafNames_node]
  simp [Label.leadsOn_of_isSingle h, gather]

/-- What is read off a target are the variables that its leaves start at. -/
theorem IsTarget.map_fst_targetRoots {t : Tree} (h : t.IsTarget) :
    t.targetRoots.map (·.1) = t.leafNames := by
  induction h with
  | @single t hl h =>
    rw [h.targetRoots, leafNames_of_isSingle hl]
    cases t.chainRoot? <;> rfl
  | @pattern l s cs hl _ ih =>
    obtain ⟨hown, hleads⟩ := Label.of_isTargetPattern hl
    have hroots : (node l s cs).targetRoots = cs.flatMap Tree.targetRoots := by
      rw [targetRoots_node]
      cases l <;> first | rfl | cases hl
    rw [leafNames_node, hroots, List.map_flatMap, List.flatMap_congr ih]
    simp [leafName?, leaf?, hown, hleads, gather_const]
  | hole s => rfl
  | withDefault s value _ ih | rest s _ ih | property computed s key _ ih =>
    rw [leafNames_node, targetRoots_node]
    simpa [leafName?, leaf?, gather_cons, gather_nil, Label.isSingle, Label.leadsOn,
      targetRootsAt] using ih
  | shorthand s name ns value =>
    have hname : (node (.identifier name) ns []).leafNames = [name] := leafNames_of_isSingle rfl
    rw [leafNames_node, targetRoots_node]
    simp [leafName?, leaf?, gather_cons, gather_nil, Label.isSingle, Label.leadsOn, targetRootsAt,
      targetRoots_node, hname]

/-! ## Places of names -/

/-- The leaf at the address starts at the variable. -/
def LeafFrom (t : Tree) (path : List Nat) (name : String) : Prop :=
  ∃ leaf q, t.leaf? path = some leaf ∧ leaf.rootAt q = true ∧ leaf.RefersAt q name

theorem leafName?_eq_some_iff {t : Tree} {path : List Nat} {name : String} :
    t.leafName? path = some name ↔
      ∃ leaf s, t.leaf? path = some leaf ∧ leaf.targetRoot? = some (name, s) := by
  simp [leafName?, Option.bind_eq_some_iff]

/-- The leaf at an address starts at the variable at its root. -/
theorem leafFrom_iff {t : Tree} {path : List Nat} {name : String} :
    t.LeafFrom path name ↔ t.leafName? path = some name := by
  rw [leafName?_eq_some_iff]
  constructor
  · rintro ⟨leaf, q, hleaf, hroot, s, cs, hat⟩
    refine ⟨leaf, s, hleaf, ?_⟩
    rw [targetRoot?_of_isSingle (isSingle_of_leaf? hleaf)]
    exact chainRoot?_eq_some_iff.mpr ⟨q, cs, hroot, hat⟩
  · rintro ⟨leaf, s, hleaf, htarget⟩
    rw [targetRoot?_of_isSingle (isSingle_of_leaf? hleaf)] at htarget
    obtain ⟨q, cs, hroot, hat⟩ := chainRoot?_eq_some_iff.mp htarget
    exact ⟨leaf, q, hleaf, hroot, s, cs, hat⟩

theorem mem_leafPlaces {t : Tree} {path : List Nat} {name : String} :
    (path, name) ∈ t.leafPlaces ↔ t.LeafFrom path name := by
  rw [leafFrom_iff]
  simp only [leafPlaces, List.mem_filterMap, Option.map_eq_some_iff, Prod.mk.injEq]
  constructor
  · rintro ⟨_, -, _, hname, rfl, rfl⟩
    exact hname
  · intro hname
    obtain ⟨leaf, s, hleaf, -⟩ := leafName?_eq_some_iff.mp hname
    exact ⟨path, mem_addresses.mpr ⟨leaf, at?_of_leaf? hleaf⟩, name, hname, rfl, rfl⟩

/-- The names of a target are those that its leaves start at, without repetitions. -/
theorem IsTarget.targetNames {t : Tree} (h : t.IsTarget) :
    t.targetNames = (t.leafPlaces.map (·.2)).eraseDups := by
  rw [Tree.targetNames, h.map_fst_targetRoots, map_snd_leafPlaces]

/-! ## The names of a target -/

/-- The names that a target writes to, told by its leaves. -/
structure NamesLeaves (t : Tree) : Prop where
  /-- No name is repeated. -/
  nodup : t.targetNames.Nodup
  /-- The names are those that a leaf starts at. -/
  mem_iff (name : String) : name ∈ t.targetNames ↔ ∃ path, t.LeafFrom path name
  /-- A name stands before another one if it has a leaf before all leaves of the other one. -/
  pair_sublist_iff (x y : String) : [x, y].Sublist t.targetNames ↔ Precedes t.LeafFrom x y
  /-- Every name is referred to at a place that lies in no index, key or default. -/
  outside_values (name : String) (h : name ∈ t.targetNames) :
    ∃ path, t.RefersAt path name ∧ t.inValue path = false
  /-- What is referred to at such a place is one of the names, unless the place lies in a leaf that
  starts at no variable. -/
  complete (path : List Nat) (name : String) (hat : t.RefersAt path name)
    (hvalue : t.inValue path = false) : name ∈ t.targetNames
      ∨ ∃ p leaf, p <+: path ∧ t.leaf? p = some leaf ∧ leaf.targetRoot? = none
  /-- A leaf is written through the identifier at its root. -/
  root_iff (path : List Nat) (leaf : Tree) (h : t.leaf? path = some leaf) (name : String)
    (s : Span) : leaf.targetRoot? = some (name, s) ↔
      ∃ q cs, leaf.rootAt q = true ∧ leaf.at? q = some (node (.identifier name) s cs)
  /-- A leaf by itself has the name of that identifier, or none if there is no such identifier, and
  so has an update of the leaf. -/
  leaf_names (path : List Nat) (leaf : Tree) (h : t.leaf? path = some leaf) :
    leaf.targetNames = (leaf.targetRoot?.map (·.1)).toList
    ∧ ∀ op ahead s, (node (.update op ahead) s [leaf]).writtenNames
      = (leaf.targetRoot?.map (·.1)).toList

/-- The names of a target are the variables that its leaves start at, each once, in the order of the
leaves. A leaf that starts at something else adds no name, and neither does what is referred to in
an index, a key or a default. For a single target, which is its only leaf, this is the identifier
that it is written through, in an update as in an assignment. -/
theorem targetNames_leaves {t : Tree} (h : t.IsTarget) : t.NamesLeaves := by
  have hmem (name : String) : name ∈ t.targetNames ↔ ∃ path, t.LeafFrom path name := by
    rw [h.targetNames, List.mem_eraseDups, List.mem_map]
    simp [mem_leafPlaces]
  refine ⟨?nodup, hmem, ?order, ?outside, ?complete, ?root, ?leaf⟩
  case nodup =>
    rw [h.targetNames]
    exact nodup_eraseDups _
  case order =>
    intro x y
    have hplaced : (fun p a => (p, a) ∈ t.leafPlaces) = t.LeafFrom :=
      funext fun p => funext fun a => propext mem_leafPlaces
    rw [h.targetNames, pair_sublist_eraseDups t.pairwise_leafPlaces, hplaced]
  case outside =>
    intro name hname
    obtain ⟨path, leaf, q, hleaf, hroot, s, cs, hat⟩ := (hmem name).mp hname
    refine ⟨path ++ q, ⟨s, cs, ?_⟩, ?_⟩
    · rw [at?_append, at?_of_leaf? hleaf]
      exact hat
    · rw [inValue_of_leaf? hleaf, inValue_of_rootAt hroot]
  case complete =>
    intro path name hat hvalue
    obtain ⟨p, leaf, hp, hleaf, hroot⟩ := h.leaf_of_not_inValue hat hvalue
    rw [← targetRoot?_of_isSingle (isSingle_of_leaf? hleaf)] at hroot
    rcases hroot with hnone | ⟨s, hsome⟩
    · exact .inr ⟨p, leaf, hp, hleaf, hnone⟩
    · have hname := leafName?_eq_some_iff.mpr ⟨leaf, s, hleaf, hsome⟩
      exact .inl ((hmem name).mpr ⟨p, leafFrom_iff.mpr hname⟩)
  case root =>
    intro path leaf hleaf name s
    rw [targetRoot?_of_isSingle (isSingle_of_leaf? hleaf), chainRoot?_eq_some_iff]
  case leaf =>
    intro path leaf hleaf
    have hnames := (h.isChain_of_leaf? hleaf).targetNames
    rw [← targetRoot?_of_isSingle (isSingle_of_leaf? hleaf)] at hnames
    exact ⟨hnames, fun op ahead s => hnames⟩

/-- A pattern with a member under an index, a default, a hole, an object pattern with its own
shorthand, key and rest, and a leaf that starts at a call. -/
theorem targetNames_leaves_nested :
    ∃ t ∈ ((parseExpression
        "[a.b[i], , (c).#d = j, \x7b e = k, [l]: [a, f().g], ...h \x7d] = m".toList).toOption.bind
          target?).toList,
      t.IsTarget ∧ t.NamesLeaves ∧ t.targetNames = ["a", "c", "e", "h"] := by
  obtain ⟨t, ht, htarget, hnames⟩ : ∃ t ∈ ((parseExpression
        "[a.b[i], , (c).#d = j, \x7b e = k, [l]: [a, f().g], ...h \x7d] = m".toList).toOption.bind
          target?).toList,
      t.IsTarget ∧ t.targetNames = ["a", "c", "e", "h"] := by
    decide +kernel
  exact ⟨t, ht, htarget, targetNames_leaves htarget, hnames⟩

end Tree

end Reactive.Script
