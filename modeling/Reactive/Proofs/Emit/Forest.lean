/-
  Emissions of forests.

  A node of a template is created, given its attributes, filled with its children and put below
  its parent, whatever kind of node it is; the emission of a forest is made of such pieces, so
  that one induction over forests serves every kind. A handle ends in an underscore and the
  number of its node: handles of different numbers differ whatever their stems are, and no
  handle is the name of the target. The handles of a forest are numbered without gaps in the
  order of the walk.
-/
import Reactive.Emit.Program
import Mathlib.Data.List.Basic

namespace Reactive

/-! ## Induction over forests -/

/-- The attributes of a node; only elements have any. -/
def Node.attributes : Node → List Attribute
  | .element _ attributes _ => attributes
  | _ => []

/-- The nodes below a node; only elements have any. -/
def Node.children : Node → List Node
  | .element _ _ children => children
  | _ => []

/-- Induction over forests: the first node stands over a forest of its own. -/
@[elab_as_elim]
theorem Node.forestInd {motive : List Node → Prop} (nil : motive [])
    (cons : ∀ node nodes, motive node.children → motive nodes → motive (node :: nodes))
    (nodes : List Node) : motive nodes :=
  @Node.rec_1 (fun n => ∀ ns, motive ns → motive (n :: ns)) motive
    (fun tag attributes children hchildren ns => cons (.element tag attributes children) ns
      hchildren)
    (fun value ns => cons (.text value) ns nil) (fun e ns => cons (.expression e) ns nil)
    nil (fun _ ns hn hns => hn ns hns) nodes

namespace Emit

/-! ## Names of handles -/

/-- The number of a handle can be read off it. -/
theorem handle_inj {stem₁ stem₂ : String} {n₁ n₂ : Nat}
    (h : handle stem₁ n₁ = handle stem₂ n₂) : n₁ = n₂ := by
  -- Read backwards, a handle is digits up to the first underscore.
  have hdigits : ∀ (stem : String) (n : Nat),
      (handle stem n).toList.reverse.takeWhile (· != '_') = (Nat.toDigits 10 n).reverse := by
    intro stem n
    have hall : ∀ c ∈ (Nat.toDigits 10 n).reverse, (c != '_') = true := by
      intro c hc
      rw [bne_iff_ne]
      rintro rfl
      exact Nat.underscore_not_in_toDigits (List.mem_reverse.mp hc)
    simp only [handle, String.toList_append, Nat.toString_eq_repr, Nat.toList_repr,
      List.reverse_append]
    rw [List.takeWhile_append_of_pos hall]
    simp
  have hrev : (Nat.toDigits 10 n₁).reverse = (Nat.toDigits 10 n₂).reverse := by
    rw [← hdigits stem₁, ← hdigits stem₂, h]
  have heq := congrArg (Nat.ofDigitChars 10 · 0) (List.reverse_injective hrev)
  simpa [Nat.ofDigitChars_toDigits] using heq

/-- A handle is none of the names without an underscore. -/
theorem handle_ne {name : String} (h : '_' ∉ name.toList) (stem : String) (n : Nat) :
    handle stem n ≠ name := by
  rintro rfl
  exact h (by simp [handle])

/-- No handle is the name of the target. -/
theorem handle_ne_target (stem : String) (n : Nat) : handle stem n ≠ targetName :=
  handle_ne (by decide) stem n

/-- The name is older than the node of a number: that of the target, or of a node before. -/
def Older (n : Nat) (name : String) : Prop :=
  name = targetName ∨ ∃ stem k, k < n ∧ name = handle stem k

theorem older_handle (stem : String) (n : Nat) : Older (n + 1) (handle stem n) :=
  Or.inr ⟨stem, n, Nat.lt_succ_self n, rfl⟩

theorem Older.mono {n m : Nat} {name : String} (h : Older n name) (hle : n ≤ m) :
    Older m name := by
  rcases h with rfl | ⟨stem, k, hk, rfl⟩
  · exact Or.inl rfl
  · exact Or.inr ⟨stem, k, Nat.lt_of_lt_of_le hk hle, rfl⟩

theorem Older.ne_handle {n k : Nat} {name : String} (h : Older n name) (hle : n ≤ k)
    (stem : String) : name ≠ handle stem k := by
  rcases h with rfl | ⟨stem', k', hk, rfl⟩
  · exact (handle_ne_target stem k).symm
  · intro heq
    have := handle_inj heq
    omega

/-! ## The emission of a forest -/

/-- The emission for a forest below a parent, from a number on. -/
def forest (f : Facts) (parent : String) (n : Nat) (nodes : List Node) : Emission :=
  siblings parent n (nodes.map (Node.fold element textNode (expressionNode f)))

theorem markup_eq_forest (f : Facts) (t : Template) :
    markup f t = forest f targetName 0 t.nodes := rfl

/-- A component builds its template first and then runs its declarations. -/
theorem generate_construct (c : Component) (f : Facts) (o : Options) :
    (generate c f o).construct
      = (forest f targetName 0 c.template.nodes).build ++ f.responsive.map Step.run := rfl

/-- The stem of the handle of a node. -/
def stem : Node → String
  | .element tag _ _ => handleStem tag
  | .text _ => "txt"
  | .expression _ => "exp"

/-- The step that creates a node. -/
def creation (h : String) : Node → Step
  | .element tag _ _ => .createElement h tag
  | .text value => .createText h (.text value)
  | .expression e => .createText h (.code (Script.printExpression e.code))

/-- The reactions of a node itself. -/
def ownReactions (f : Facts) (h : String) : Node → List Reaction
  | .expression e => if (reactiveReads f e).isEmpty then []
      else [.updateText (reactiveReads f e) h (Script.printExpression e.code)]
  | _ => []

/-- The emission for a node with a handle, given that for the nodes below it. -/
def around (f : Facts) (parent h : String) (node : Node) (inner : Emission) : Emission :=
  { handles := h :: inner.handles
    build := creation h node :: ((node.attributes.map (attributeSteps h)).flatMap (·.1)
      ++ inner.build ++ [.appendChild parent h])
    reactions := ownReactions f h node ++ inner.reactions
    remove := .removeChild parent h :: ((node.attributes.map (attributeSteps h)).flatMap (·.2)
      ++ inner.remove) }

@[simp] theorem forest_nil (f : Facts) (parent : String) (n : Nat) :
    forest f parent n [] = .none := rfl

/-- The first node of a forest, then the others. -/
theorem forest_cons (f : Facts) (parent : String) (n : Nat) (node : Node) (nodes : List Node) :
    forest f parent n (node :: nodes) =
      let h := handle (stem node) n
      let inner := forest f h (n + 1) node.children
      (around f parent h node inner).append
        (forest f parent (n + (inner.handles.length + 1)) nodes) := by
  rw [forest, List.map_cons, siblings]
  cases node with
  | element tag attributes children =>
    rw [Node.fold, Node.foldAll_eq_map]
    rfl
  | text value => rfl
  | expression e =>
    have hown (h : String) : around f parent h (.expression e) .none =
        { handles := [h]
          build := [creation h (.expression e), .appendChild parent h]
          reactions := ownReactions f h (.expression e)
          remove := [.removeChild parent h] } := by
      simp [around, Node.attributes, Emission.none]
    dsimp only [Node.children]
    rw [Node.fold, forest_nil, hown]
    rfl

@[simp] theorem handles_append (a b : Emission) :
    (a.append b).handles = a.handles ++ b.handles := rfl

@[simp] theorem build_append (a b : Emission) : (a.append b).build = a.build ++ b.build := rfl

@[simp] theorem reactions_append (a b : Emission) :
    (a.append b).reactions = a.reactions ++ b.reactions := rfl

@[simp] theorem remove_append (a b : Emission) : (a.append b).remove = a.remove ++ b.remove := rfl

/-! ## Numbers of handles -/

/-- The names are handles with the numbers from the first one on, without gaps. -/
def Numbered : Nat → List String → Prop
  | _, [] => True
  | n, name :: names => (∃ stem, name = handle stem n) ∧ Numbered (n + 1) names

namespace Numbered

theorem append {n : Nat} {names more : List String} (h : Numbered n names)
    (hmore : Numbered (n + names.length) more) : Numbered n (names ++ more) := by
  induction names generalizing n with
  | nil => exact hmore
  | cons name names ih =>
    refine ⟨h.1, ih h.2 ?_⟩
    rw [List.length_cons] at hmore
    rwa [Nat.add_assoc, Nat.add_comm 1]

theorem exists_number {n : Nat} {names : List String} (h : Numbered n names) {name : String}
    (hmem : name ∈ names) : ∃ stem k, n ≤ k ∧ k < n + names.length ∧ name = handle stem k := by
  induction names generalizing n with
  | nil => exact absurd hmem (by simp)
  | cons first names ih =>
    rw [List.length_cons]
    rcases List.mem_cons.mp hmem with rfl | hmem
    · obtain ⟨stem, rfl⟩ := h.1
      exact ⟨stem, n, Nat.le_refl n, by omega, rfl⟩
    · obtain ⟨stem, k, hle, hlt, rfl⟩ := ih h.2 hmem
      exact ⟨stem, k, by omega, by omega, rfl⟩

theorem nodup {n : Nat} {names : List String} (h : Numbered n names) : names.Nodup := by
  induction names generalizing n with
  | nil => exact List.nodup_nil
  | cons first names ih =>
    refine List.nodup_cons.mpr ⟨?_, ih h.2⟩
    intro hmem
    obtain ⟨stem, rfl⟩ := h.1
    obtain ⟨stem', k, hle, -, heq⟩ := h.2.exists_number hmem
    have := handle_inj heq
    omega

end Numbered

/-- The handles of a forest are numbered in the order of the walk. -/
theorem numbered_handles (f : Facts) (parent : String) (n : Nat) (nodes : List Node) :
    Numbered n (forest f parent n nodes).handles := by
  induction nodes using Node.forestInd generalizing parent n with
  | nil => trivial
  | cons node nodes ihc ihn =>
    -- The forest that follows starts behind the node and the nodes below it.
    rw [forest_cons]
    refine Numbered.append ⟨⟨_, rfl⟩, ihc _ _⟩ ?_
    exact ihn parent _

/-- A name that is older than a forest is none of its handles. -/
theorem Older.not_mem_handles {m : Nat} {name : String} (h : Older m name) (f : Facts)
    (parent : String) {n : Nat} (hle : m ≤ n) (nodes : List Node) :
    name ∉ (forest f parent n nodes).handles := by
  intro hmem
  obtain ⟨stem, k, hk, -, rfl⟩ := (numbered_handles f parent n nodes).exists_number hmem
  exact h.ne_handle (Nat.le_trans hle hk) stem rfl

end Emit

end Reactive
