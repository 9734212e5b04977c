/-
  Characters inside a literal.

  Seven characters have a short escape, the other control characters are written by their number,
  and every other character stands for itself. Readers of literals, of either kind, go by these
  three cases.
-/
import Reactive.Json.Quoted

namespace Reactive.Json

/-- The characters with a short escape, each with the one that stands behind the backslash. -/
def shortEscapes : List (Char × Char) :=
  [('"', '"'), ('\\', '\\'), ('\x08', 'b'), ('\t', 't'), ('\n', 'n'), ('\x0c', 'f'), ('\r', 'r')]

theorem escapeChar_short {c e : Char} (h : (c, e) ∈ shortEscapes) : escapeChar c = ['\\', e] := by
  have hall : ∀ p ∈ shortEscapes, escapeChar p.1 = ['\\', p.2] := by decide
  exact hall _ h

/-- How a character is written: with a short escape, by its number, or as itself. -/
theorem escapeChar_cases (c : Char) :
    (∃ e, (c, e) ∈ shortEscapes)
    ∨ (c.toNat < 32 ∧ escapeChar c
      = ['\\', 'u', '0', '0', hexDigit (c.toNat / 16), hexDigit (c.toNat % 16)])
    ∨ (c ≠ '"' ∧ c ≠ '\\' ∧ 32 ≤ c.toNat ∧ escapeChar c = [c]) := by
  by_cases hshort : c ∈ shortEscapes.map (·.1)
  · obtain ⟨⟨c', e⟩, he, rfl⟩ := List.mem_map.mp hshort
    exact .inl ⟨e, he⟩
  · right
    simp only [shortEscapes, List.map_cons, List.map_nil, List.mem_cons, List.not_mem_nil, or_false,
      not_or] at hshort
    obtain ⟨hquote, hslash, hback, htab, hfeed, hform, hreturn⟩ := hshort
    have hlong : escapeChar c = if c.toNat < 32
        then ['\\', 'u', '0', '0', hexDigit (c.toNat / 16), hexDigit (c.toNat % 16)] else [c] := by
      rw [escapeChar, if_neg hquote, if_neg hslash, if_neg hback, if_neg htab, if_neg hfeed,
        if_neg hform, if_neg hreturn]
    by_cases hlow : c.toNat < 32
    · exact .inl ⟨hlow, hlong.trans (if_pos hlow)⟩
    · exact .inr ⟨hquote, hslash, Nat.le_of_not_lt hlow, hlong.trans (if_neg hlow)⟩

/-- What is no control character ends no line. -/
theorem ne_lineEnd_of_le {c : Char} (h : 32 ≤ c.toNat) : c ≠ '\n' ∧ c ≠ '\r' := by
  refine ⟨?_, ?_⟩
  · rintro rfl
    exact absurd h (by decide)
  · rintro rfl
    exact absurd h (by decide)

end Reactive.Json
