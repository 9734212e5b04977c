/-
  Handles as names.

  A tag may be any text at all: nothing but its ASCII letters, digits and underscores goes into a
  handle, and a tag that could not start a name is put behind a stem that can. What is left of two
  tags may be the same, so handles are kept apart by the number at their end. Main statement: the
  handles of a template belong to its nodes in document order, differ from each other, are names in
  ASCII, and are neither reserved words nor names that every compiled component uses.
-/
import Reactive.Proofs.Emit.Walk

namespace Reactive.Emit

/-! ## Names in ASCII -/

/-- A name in ASCII: a letter or an underscore, then letters, digits and underscores. -/
def IsAsciiName (cs : List Char) : Prop :=
  ∃ first rest, cs = first :: rest ∧ (first.isAlpha ∨ first = '_')
    ∧ ∀ c ∈ rest, c.isAlpha ∨ c.isDigit ∨ c = '_'

theorem isHandleChar_iff {c : Char} :
    isHandleChar c = true ↔ c.isAlpha ∨ c.isDigit ∨ c = '_' := by
  rw [isHandleChar, Char.isAlphanum, Bool.or_eq_true, Bool.or_eq_true, beq_iff_eq, or_assoc]

/-- Characters of handles, the first of which is no digit, are a name. -/
theorem isAsciiName_of_chars {first : Char} {rest : List Char} (hdigit : first.isDigit = false)
    (hchars : ∀ c ∈ first :: rest, isHandleChar c = true) : IsAsciiName (first :: rest) := by
  obtain ⟨hfirst, hrest⟩ := List.forall_mem_cons.mp hchars
  refine ⟨first, rest, rfl, ?_, fun c hc => isHandleChar_iff.mp (hrest c hc)⟩
  rcases isHandleChar_iff.mp hfirst with hletter | hdigit' | hunderscore
  · exact .inl hletter
  · rw [hdigit] at hdigit'
    cases hdigit'
  · exact .inr hunderscore

/-- A name stays one if characters of handles follow. -/
theorem IsAsciiName.append {cs more : List Char} (h : IsAsciiName cs)
    (hmore : ∀ c ∈ more, isHandleChar c = true) : IsAsciiName (cs ++ more) := by
  obtain ⟨first, rest, rfl, hfirst, hrest⟩ := h
  refine ⟨first, rest ++ more, rfl, hfirst, List.forall_mem_append.mpr ⟨hrest, fun c hc => ?_⟩⟩
  exact isHandleChar_iff.mp (hmore c hc)

/-- What a tag gives to a handle is a name, whatever the tag is. -/
theorem isAsciiName_handleStem (tag : String) : IsAsciiName (handleStem tag).toList := by
  have hchars : ∀ c ∈ tag.toList.map fun c => if isHandleChar c then c else '_',
      isHandleChar c = true := by
    intro c hc
    obtain ⟨x, -, rfl⟩ := List.mem_map.mp hc
    split
    · assumption
    · rfl
  have hel : IsAsciiName "el_".toList := isAsciiName_of_chars rfl (by simp; decide)
  unfold handleStem
  dsimp only
  split
  · exact hel
  · rename_i c cs hcs
    rw [hcs] at hchars ⊢
    split
    · rw [String.toList_append]
      exact hel.append (by rwa [String.toList_ofList])
    · rename_i hdigit
      rw [String.toList_ofList]
      exact isAsciiName_of_chars (Bool.eq_false_iff.mpr hdigit) hchars

theorem isAsciiName_stem (node : Node) : IsAsciiName (stem node).toList := by
  cases node with
  | element tag attributes children => exact isAsciiName_handleStem tag
  | text value =>
    have htxt : IsAsciiName "txt".toList := isAsciiName_of_chars rfl (by simp; decide)
    exact htxt
  | expression e =>
    have hexp : IsAsciiName "exp".toList := isAsciiName_of_chars rfl (by simp; decide)
    exact hexp

/-- A handle is a name, whatever node it belongs to. -/
theorem isAsciiName_handle (node : Node) (n : Nat) :
    IsAsciiName (handle (stem node) n).toList := by
  rw [handle, String.toList_append, String.toList_append]
  have hunderscore : ∀ c ∈ "_".toList, isHandleChar c = true := by simp; decide
  refine ((isAsciiName_stem node).append hunderscore).append fun c hc => ?_
  rw [Nat.toString_eq_repr, Nat.toList_repr] at hc
  have hdigit := Nat.isDigit_of_mem_toDigits (by decide) (by decide) hc
  exact isHandleChar_iff.mpr (.inr (.inl hdigit))

/-! ## Handles of a template -/

/-- The words that cannot be declared in a module. -/
def undeclarable : List String :=
  Script.Parser.reservedWords ++ ["arguments", "await", "eval", "implements", "interface", "let",
    "package", "private", "protected", "public", "static", "yield"]

/-- The names that a compiled component has for its parameters and its lifecycle, and the one by
which it reaches the document. -/
def fixedNames : List String := ["target", "changed", "lifecycle", "document"]

/-- The handles of a template: one for every node, numbered in document order, under which the steps
that build the template create the nodes in this order. They are different from each other, and each
is a name in ASCII that is neither a reserved word nor one of the fixed names. -/
theorem handles_fresh (f : Facts) (t : Template) :
    let nodes := Node.walkAll t.nodes
    let handles := (markup f t).handles
    handles = (nodes.zipIdx.map fun x => handle (stem x.1) x.2)
    ∧ (markup f t).build.filterMap Step.creation?
      = (nodes.zip handles).map (fun x => creation x.2 x.1)
    ∧ handles.Nodup
    ∧ ∀ h ∈ handles, IsAsciiName h.toList ∧ h ∉ undeclarable ∧ h ∉ fixedNames := by
  intro nodes handles
  have hforest : handles = (handled 0 t.nodes).map (·.2) := handles_forest f targetName 0 t.nodes
  have hhandles : handles = nodes.zipIdx.map fun x => handle (stem x.1) x.2 := by
    rwa [handled, List.map_map] at hforest
  have hnodes : (handled 0 t.nodes).map (·.1) = nodes := by
    rw [handled, List.map_map]
    exact List.zipIdx_map_fst 0 nodes
  have hhandled : handled 0 t.nodes = nodes.zip handles := List.zip_of_prod hnodes hforest.symm
  refine ⟨hhandles, ?_, (numbered_handles f targetName 0 t.nodes).nodup, fun h hh => ?_⟩
  · rw [← hhandled]
    exact creations_forest f targetName 0 t.nodes
  · obtain ⟨⟨node, n⟩, -, rfl⟩ := List.mem_map.mp (hhandles ▸ hh)
    -- A handle has an underscore, and none of these words does.
    have hplain : ∀ word ∈ undeclarable ++ fixedNames, '_' ∉ word.toList := by decide
    have hword : handle (stem node) n ∉ undeclarable ++ fixedNames := fun hmem =>
      handle_ne (hplain _ hmem) _ _ rfl
    rw [List.mem_append, not_or] at hword
    exact ⟨isAsciiName_handle node n, hword⟩

/-- Tags may be empty, start with digits, or leave the same stem as others. -/
example :
    let node (tag : String) : Node := .element tag [] []
    (markup default ⟨[.element "" [] [.text "", node "1"], node "é-1", node "_-1"], []⟩).handles
      = ["el__0", "txt_1", "el_1_2", "__1_3", "__1_4"] := by
  decide +kernel

end Reactive.Emit
