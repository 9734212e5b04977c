/-
  Attribute values that are one expression.

  A value is taken for an expression by its first and its last character, a text by its regions.
  Both take the trimmed inside of the braces for the code. They agree exactly where the brace at the
  end of the value is the one that balances the brace at its start.
-/
import Reactive.Proofs.Source.Splitting

namespace Reactive.Source

open Reactive.Text

/-- A text that starts with an opening brace and ends with a closing one is its inside in braces. -/
theorem eq_braced_inside {cs : List Char} (hopens : cs.head? = some '\x7b')
    (hcloses : cs.getLast? = some '\x7d') : cs = braced [] (inside cs) [] := by
  obtain ⟨tail, rfl⟩ := List.head?_eq_some_iff.mp hopens
  obtain ⟨x, hx⟩ := List.getLast?_eq_some_iff.mp hcloses
  cases x with
  | nil => exact absurd (List.cons.inj hx).1 (by decide)
  | cons c x =>
    obtain ⟨rfl, rfl⟩ := List.cons.inj hx
    simp [braced, inside]

/-- A value is an expression exactly if it is trimmed code in braces, blanks aside. -/
theorem classifyValue_eq_expression {value : String} {code : List Char} :
    classifyValue value = .ok (.expression (String.ofList code)) ↔
      ∃ before after, allBlank before = true ∧ allBlank after = true ∧ code ≠ []
        ∧ trim code = code ∧ trim value.toList = braced before code after := by
  unfold classifyValue
  dsimp only
  constructor
  · intro h
    split at h
    · rename_i hbraces
      rw [Bool.and_eq_true_iff, beq_iff_eq, beq_iff_eq] at hbraces
      split at h
      · cases h
      rename_i hcode
      obtain rfl : trim (inside (trim value.toList)) = code := by
        simpa [String.ofList_inj] using h
      obtain ⟨before, after, hbefore, hafter, hinside⟩ := exists_trim (inside (trim value.toList))
      refine ⟨before, after, hbefore, hafter, by simpa using hcode, trim_trim _, ?_⟩
      conv_lhs => rw [eq_braced_inside hbraces.1 hbraces.2, hinside]
      simp [braced]
    · split at h
      · cases h
      split at h <;> cases h
  · rintro ⟨before, after, hbefore, hafter, hne, htrim, hvalue⟩
    have hlast : (braced before code after).getLast? = some '\x7d' := List.getLast?_concat ..
    have hfirst : (braced before code after).head? = some '\x7b' := rfl
    rw [hvalue, hfirst, hlast, inside_braced, trim_padded hbefore hafter htrim hne]
    simp [hne]

/-- A text splits into one expression exactly if it is a region with trimmed code in it. -/
theorem splitChars_eq_expression {cs code : List Char} :
    splitChars cs = .ok [.expression (String.ofList code)] ↔
      ∃ before after, (Written.region before code after).Sound ∧ cs = braced before code after := by
  constructor
  · intro h
    obtain ⟨p, rest, rfl, hread, rfl | ⟨fault, hstuck⟩⟩ := exists_readable cs
    · rw [List.append_nil] at h ⊢
      obtain ⟨ws, hnormal, hwritten, hsplit⟩ := hread.splitFrom_ok (List.forall_mem_nil _)
      rw [splitChars, hsplit] at h
      -- The only fragment is code, so it is written as a region.
      obtain ⟨w, rfl, hw⟩ := List.map_eq_singleton_iff.mp (Except.ok.inj h)
      cases w with
      | literal t => cases hw
      | region before code' after =>
        obtain rfl : code' = code := by simpa [Written.fragment, String.ofList_inj] using hw
        refine ⟨before, after, hnormal.sound _ List.mem_cons_self, ?_⟩
        simpa [Written.text] using hwritten.symm
    · rw [splitChars, hread.splitFrom_error (splitFrom_stuck hstuck)] at h
      cases h
  · rintro ⟨before, after, hsound, rfl⟩
    have hnormal : Normal [.region before code after] :=
      Normal.cons_region ⟨List.forall_mem_nil _, .nil⟩ hsound
    have hsplit := hnormal.splitFrom_eq fun h => absurd rfl h
    simpa [splitChars, Written.text, Written.fragment, flush] using hsplit

/-- A text that is one expression is an attribute value with the same code; and an attribute value
    with some code is a text that is this one expression exactly if the brace at its end is the one
    that balances the brace at its start. -/
theorem splitFragments_value (value code : String) (site : BraceSite) :
    splitFragments (trimString value) site = .ok [.expression code] ↔
      classifyValue value = .ok (.expression code) ∧ IsRegion (trim value.toList) := by
  obtain ⟨code, rfl⟩ : ∃ cs, code = String.ofList cs := ⟨code.toList, String.ofList_toList.symm⟩
  have hsplit : splitFragments (trimString value) site = .ok [.expression (String.ofList code)]
      ↔ splitChars (trim value.toList) = .ok [.expression (String.ofList code)] := by
    rw [splitFragments_eq, trimString, String.toList_ofList]
    cases splitChars (trim value.toList) <;> simp [Except.mapError]
  rw [hsplit, splitChars_eq_expression, classifyValue_eq_expression]
  constructor
  · rintro ⟨before, after, ⟨hbefore, hafter, hne, htrim, hregion⟩, hvalue⟩
    refine ⟨⟨before, after, hbefore, hafter, hne, htrim, hvalue⟩, ?_⟩
    rw [hvalue]
    exact (isRegion_padded hbefore hafter code).mpr hregion
  · rintro ⟨⟨before, after, hbefore, hafter, hne, htrim, hvalue⟩, hregion⟩
    rw [hvalue] at hregion
    exact ⟨before, after,
      ⟨hbefore, hafter, hne, htrim, (isRegion_padded hbefore hafter code).mp hregion⟩, hvalue⟩

/-- The first and the last character are braces, but of two different regions, or one of them is a
brace too many: the value is taken for an expression, and the text is not. -/
theorem classifyValue_unbalanced :
    (classifyValue "\x7ba\x7d\x7d" = .ok (.expression "a\x7d")
      ∧ splitFragments "\x7ba\x7d\x7d" .attributeValue
        = .error (.unmatchedCloseBrace .attributeValue "\x7ba\x7d\x7d"))
    ∧ classifyValue "\x7ba\x7d\x7bb\x7d" = .ok (.expression "a\x7d\x7bb")
      ∧ splitFragments "\x7ba\x7d\x7bb\x7d" .attributeValue
        = .ok [.expression "a", .expression "b"] := by
  decide +kernel

end Reactive.Source
