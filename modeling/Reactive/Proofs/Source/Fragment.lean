/-
  Splitting finds the regions that were taken out of the markup.

  A region that comes back from its placeholder stands in a text of its own, with other
  surroundings than in the markup. Behind text without braces, splitting meets its opening brace
  first and ends it at the same brace as before; what follows is split as if it stood alone.
-/
import Reactive.Proofs.Source.Cut
import Reactive.Source.Fragment

namespace Reactive.Source

open Reactive.Text

/-- Nothing is left of a text by trimming exactly if it is blank. -/
theorem isEmpty_trim (cs : List Char) : (trim cs).isEmpty = allBlank cs := by
  have hright : trimRight (trimLeft cs) = [] ↔ (trimLeft cs).all isBlank = true := by
    rw [trimRight, List.reverse_eq_nil_iff, ← List.all_reverse]
    exact trimLeft_eq_nil_iff _
  rw [Bool.eq_iff_iff, List.isEmpty_iff, trim, hright, ← trimLeft_eq_nil_iff]
  cases hleft : trimLeft cs with
  | nil => simp
  | cons c rest =>
    -- What is left of the front starts with no blank.
    have hc : ¬ isBlank c = true := by
      have hhead := List.head?_dropWhile_not isBlank cs
      rw [← trimLeft, hleft] at hhead
      simpa using hhead
    simp [hc]

/-! ## Literals and regions -/

/-- Text without braces is added to the literal. -/
theorem splitFrom_append {p : List Char} (hp : ∀ c ∈ p, c ≠ '\x7b' ∧ c ≠ '\x7d')
    (literal cs : List Char) :
    splitFrom literal (p ++ cs) = splitFrom (p.reverse ++ literal) cs := by
  induction p generalizing literal with
  | nil => rfl
  | cons c p ih =>
    obtain ⟨hopen, hclose⟩ := hp c List.mem_cons_self
    rw [List.cons_append, splitFrom, if_neg hopen, if_neg hclose,
      ih fun d hd => hp d (List.mem_cons_of_mem _ hd), List.reverse_cons, List.append_assoc]
    rfl

/-- A region ends the literal; the text behind it is split on its own. -/
theorem splitFrom_region {cs r rest : List Char} (h : RegionAt cs r rest) (literal : List Char) :
    splitFrom literal cs = if allBlank (inside r) then .error .emptyExpression
      else (splitChars rest).map fun fs =>
        flush literal (.expression (String.ofList (trim (inside r))) :: fs) := by
  obtain ⟨tail, rfl⟩ := List.head?_eq_some_iff.mp h.1
  rw [splitFrom, if_pos rfl]
  split
  · rename_i hnone
    exact absurd (hnone.symm.trans h.2) (by simp)
  · rename_i r' rest' hsome
    obtain ⟨rfl, rfl⟩ := Prod.mk.inj (Option.some.inj (hsome.symm.trans h.2))
    dsimp only
    rw [isEmpty_trim, splitChars]
    split
    · rfl
    · cases splitFrom [] rest' <;> rfl

/-- Splitting reports a fault together with the whole text. -/
theorem splitFragments_eq (text : String) (site : BraceSite) :
    splitFragments text site = (splitChars text.toList).mapError (·.error site text) := by
  rw [splitFragments]
  cases splitChars text.toList <;> rfl

/-- A text with an open brace too many is the only one that is reported as such. -/
theorem mapError_eq_unmatchedOpenBrace_iff {read : Except SplitFault (List Fragment)}
    {site : BraceSite} {text : String} :
    read.mapError (·.error site text) = .error (.unmatchedOpenBrace site text) ↔
      read = .error .openBrace := by
  cases read with
  | ok fs => simp [Except.mapError]
  | error fault => cases fault <;> simp [Except.mapError, SplitFault.error]

/-- A region that was taken out of a markup is found again behind any text without braces and in
    front of any text. If it is blank inside, the text is refused for that. Otherwise the text
    behind it decides: with the fragments of that, those of the whole are the text before as a
    literal, the trimmed inside of the region, and then the same fragments; with a fault in it, the
    whole has the same fault. So an open brace too many is never that of the region. -/
theorem splitFragments_region {markup r : List Char} (hr : r ∈ (normalize markup).2) {p : List Char}
    (hp : ∀ c ∈ p, c ≠ '\x7b' ∧ c ≠ '\x7d') (s : List Char) (site : BraceSite) :
    let whole := String.ofList (p ++ r ++ s)
    ∃ behind : Except SplitFault (List Fragment),
      splitFragments (String.ofList s) site
        = behind.mapError (·.error site (String.ofList s))
      ∧ splitFragments whole site
        = (if allBlank (inside r) then .error .emptyExpression
          else behind.map fun fs => (if p = [] then [] else [.literal (String.ofList p)])
            ++ .expression (String.ofList (trim (inside r))) :: fs).mapError (·.error site whole)
      ∧ (splitFragments whole site = .error (.unmatchedOpenBrace site whole) →
        splitFragments (String.ofList s) site
          = .error (.unmatchedOpenBrace site (String.ofList s))) := by
  intro whole
  rw [normalize, normalizeFrom_eq] at hr
  -- The region was found in the markup; with other text behind it, it is found again.
  have hregion : RegionAt (r ++ s) r s := (of_cut markup).regionAt hr s
  have hliteral : ∀ fs : List Fragment, flush p.reverse fs
      = (if p = [] then [] else [.literal (String.ofList p)]) ++ fs := by
    intro fs
    cases p <;> simp [flush]
  have hwhole : splitChars (p ++ r ++ s) = if allBlank (inside r) then .error .emptyExpression
      else (splitChars s).map fun fs => (if p = [] then [] else [.literal (String.ofList p)])
        ++ .expression (String.ofList (trim (inside r))) :: fs := by
    rw [splitChars, List.append_assoc, splitFrom_append hp, List.append_nil,
      splitFrom_region hregion]
    simp only [hliteral]
  rw [splitFragments_eq, splitFragments_eq, String.toList_ofList, String.toList_ofList, hwhole]
  refine ⟨splitChars s, rfl, rfl, ?_⟩
  rw [mapError_eq_unmatchedOpenBrace_iff, mapError_eq_unmatchedOpenBrace_iff]
  intro hfault
  split at hfault
  · cases hfault
  · cases hs : splitChars s with
    | ok fs =>
      rw [hs] at hfault
      cases hfault
    | error fault =>
      rw [hs] at hfault
      exact hfault

/-- Taken out of a markup in which a tag and an open brace follow, the region stands in a text of
its own between a literal and another region, and the template in it still hides its brace. -/
theorem splitFragments_region_template :
    let markup := "<p>\x7b `\x7d$\x7bx\x7d` \x7d<b>\x7b".toList
    let r := "\x7b `\x7d$\x7bx\x7d` \x7d".toList
    r ∈ (normalize markup).2 ∧ (∀ c ∈ "n: ".toList, c ≠ '\x7b' ∧ c ≠ '\x7d')
    ∧ splitFragments (String.ofList ("n: ".toList ++ r ++ "\x7by\x7d".toList)) .text
      = .ok [.literal "n: ", .expression "`\x7d$\x7bx\x7d`", .expression "y"] := by
  intro markup r
  have hp : ∀ c ∈ "n: ".toList, c ≠ '\x7b' ∧ c ≠ '\x7d' := by simp
  obtain ⟨hr, hbehind, hblank, hcode⟩ : r ∈ (normalize markup).2
      ∧ splitFragments (String.ofList "\x7by\x7d".toList) .text = .ok [.expression "y"]
      ∧ allBlank (inside r) = false ∧ trim (inside r) = "`\x7d$\x7bx\x7d`".toList := by
    decide +kernel
  obtain ⟨behind, hs, hwhole, -⟩ := splitFragments_region hr hp "\x7by\x7d".toList .text
  refine ⟨hr, hp, hwhole.trans ?_⟩
  rw [hbehind] at hs
  cases behind with
  | error fault => cases hs
  | ok fs =>
    obtain rfl := Except.ok.inj hs
    rw [hblank, hcode]
    rfl

end Reactive.Source
