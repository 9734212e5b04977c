/-
  What the scanner takes for a region.

  A region is a part of the text it was taken from, and nothing behind its last brace has a say
  in where it ends: the scanner looks one character ahead only inside templates, and a region
  never ends there. So a region is a region again wherever it stands.
-/
import Reactive.Source.Brace
import Mathlib.Data.List.Infix

namespace Reactive.Source

namespace BraceState

/-- Whether a region ends with a character does not depend on what stands behind it. -/
theorem move_eq_close {s : BraceState} {c : Char} {following : Option Char}
    (h : s.move c following = .close) (other : Option Char) : s.move c other = .close := by
  unfold move at h ⊢
  split at h
  · cases h
  rename_i hescape
  rw [if_neg hescape]
  cases hquote : s.quote with
  | some quote =>
    rw [hquote] at h
    cases h
  | none =>
    rw [hquote] at h
    dsimp only at h ⊢
    split at h
    · -- In a template a character is passed, alone or with the next one.
      unfold moveInTemplate at h
      split at h
      · cases h
      · split at h <;> cases h
    · rename_i htemplate
      rw [if_neg htemplate]
      exact h

end BraceState

/-! ## The parts of a text -/

/-- A region and what follows it are the text that was scanned. -/
theorem append_of_regionFrom {s : BraceState} {cs r rest : List Char}
    (h : regionFrom s cs = some (r, rest)) : cs = r ++ rest := by
  fun_induction regionFrom s cs generalizing r with
  | case1 => cases h
  | case2 s c cs hmove =>
    obtain ⟨rfl, rfl⟩ := Prod.mk.inj (Option.some.inj h)
    rfl
  | case3 s c cs s' hmove ih =>
    obtain ⟨⟨q, u⟩, hq, heq⟩ := Option.map_eq_some_iff.mp h
    obtain ⟨rfl, rfl⟩ := Prod.mk.inj heq
    rw [ih hq]
    rfl
  | case4 => cases h
  | case5 s c s' d ds hmove ih =>
    obtain ⟨⟨q, u⟩, hq, heq⟩ := Option.map_eq_some_iff.mp h
    obtain ⟨rfl, rfl⟩ := Prod.mk.inj heq
    rw [ih hq]
    rfl

/-- A region has a last brace. -/
theorem ne_nil_of_regionFrom {s : BraceState} {cs r rest : List Char}
    (h : regionFrom s cs = some (r, rest)) : r ≠ [] := by
  have hlength := length_of_regionFrom h
  rw [append_of_regionFrom h, List.length_append] at hlength
  intro hnil
  rw [hnil, List.length_nil, Nat.zero_add] at hlength
  exact Nat.lt_irrefl _ hlength

/-- The same region is found whatever stands behind it. -/
theorem regionFrom_append {s : BraceState} {cs r rest : List Char}
    (h : regionFrom s cs = some (r, rest)) (other : List Char) :
    regionFrom s (r ++ other) = some (r, other) := by
  fun_induction regionFrom s cs generalizing r with
  | case1 => cases h
  | case2 s c cs hmove =>
    obtain ⟨rfl, rfl⟩ := Prod.mk.inj (Option.some.inj h)
    rw [List.singleton_append, regionFrom, BraceState.move_eq_close hmove]
  | case3 s c cs s' hmove ih =>
    obtain ⟨⟨q, u⟩, hq, heq⟩ := Option.map_eq_some_iff.mp h
    obtain ⟨rfl, rfl⟩ := Prod.mk.inj heq
    -- The next character belongs to the region, so the scanner sees the same one.
    have hhead : (q ++ other).head? = cs.head? := by
      rw [append_of_regionFrom hq, List.head?_append_of_ne_nil _ (ne_nil_of_regionFrom hq),
        List.head?_append_of_ne_nil _ (ne_nil_of_regionFrom hq)]
    rw [List.cons_append, regionFrom, hhead, hmove]
    dsimp only
    rw [ih hq]
    rfl
  | case4 => cases h
  -- Two characters are passed at once, and the second one is what the scanner looked at.
  | case5 s c s' d ds hmove ih =>
    obtain ⟨⟨q, u⟩, hq, heq⟩ := Option.map_eq_some_iff.mp h
    obtain ⟨rfl, rfl⟩ := Prod.mk.inj heq
    rw [List.cons_append, List.cons_append, regionFrom, List.head?_cons]
    rw [List.head?_cons] at hmove
    rw [hmove]
    dsimp only
    rw [ih hq]
    rfl

/-! ## Regions in a text -/

/-- A region starts a text: its opening brace is the first character. -/
def RegionAt (cs r rest : List Char) : Prop := cs.head? = some '\x7b' ∧ region? cs = some (r, rest)

theorem RegionAt.append_eq {cs r rest : List Char} (h : RegionAt cs r rest) : cs = r ++ rest :=
  append_of_regionFrom h.2

/-- A region starts with its opening brace. -/
theorem RegionAt.exists_cons {cs r rest : List Char} (h : RegionAt cs r rest) :
    ∃ tail, r = '\x7b' :: tail := by
  have hhead := h.1
  rw [h.append_eq, List.head?_append_of_ne_nil _ (ne_nil_of_regionFrom h.2)] at hhead
  exact List.head?_eq_some_iff.mp hhead

/-- A region starts any text that it is put in front of. -/
theorem RegionAt.append {cs r rest : List Char} (h : RegionAt cs r rest) (other : List Char) :
    RegionAt (r ++ other) r other := by
  refine ⟨?_, regionFrom_append h.2 other⟩
  obtain ⟨tail, rfl⟩ := h.exists_cons
  rfl

end Reactive.Source
