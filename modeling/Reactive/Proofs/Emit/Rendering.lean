/-
  Rendering changes the layout.

  The text of a compiled component is made of parts: the variables, the script, the statements of
  the methods and the lines around them. At its place in the text every part is laid out anew, so
  whoever reads it there token by token reads what stands in the part alone, and a reactive
  declaration is read alike where it runs first and where it runs again. Only a literal that goes
  over the end of a line does not stay the same: its lines are moved like all others.
-/
import Reactive.Proofs.Emit.Validity
import Reactive.Proofs.Script.Readers

namespace Reactive

open Reactive.Text Reactive.Script Reactive.Script.Parser

namespace Emit

/-! ## Lines laid out anew -/

theorem isVoid_of_isBlank {c : Char} (h : isBlank c = true) : isVoid c = true := by
  have hends : '\n'.toNat = 10 ∧ '\r'.toNat = 13 ∧ '\u2028'.toNat = 0x2028
      ∧ '\u2029'.toNat = 0x2029 := by decide
  simp only [isBlank, isVoid, isSpace, isLineEnd, Bool.or_eq_true, Bool.and_eq_true,
    decide_eq_true_eq, beq_iff_eq, ← Char.toNat_inj] at h ⊢
  omega

section

variable {tail e z : List Char}

theorem relaid_drop {l : List Char} (hl : ∀ c ∈ l, isVoid c = true) (h : Relaid tail true e z) :
    Relaid tail true (l ++ e) z := by
  induction l with
  | nil => exact h
  | cons c l ih =>
    rw [List.forall_mem_cons] at hl
    exact .drop hl.1 (ih hl.2)

theorem relaid_margin (depth : Nat) (h : Relaid tail true e z) :
    Relaid tail true e (margin depth ++ z) := by
  rw [margin]
  induction 2 * depth with
  | zero => exact h
  | succ n ih => exact .add rfl ih

/-- One line at a depth. The carriage returns at its end may be left out. -/
theorem relaid_line (depth : Nat) (l : List Char) {returns : List Char}
    (hreturns : ∀ c ∈ returns, c = '\r') (hline : Relaid tail false e ('\n' :: z))
    (hfresh : Relaid tail true e z) :
    ∃ w, laidLine depth l ++ '\n' :: z = '\n' :: w
      ∧ Relaid tail true (l ++ (returns ++ e)) w := by
  have hvoid : ∀ c ∈ returns, isVoid c = true := fun c hc => isVoid_of_break (.inr (hreturns c hc))
  by_cases hblank : allBlank l = true
  · refine ⟨z, by rw [laidLine, if_pos hblank]; rfl, relaid_drop ?_ (relaid_drop hvoid hfresh)⟩
    exact fun c hc => isVoid_of_isBlank (List.all_eq_true.mp hblank c hc)
  · have hend : Relaid tail false (returns ++ e) ('\n' :: z) := by
      cases returns with
      | nil => exact hline
      | cons c returns =>
        obtain ⟨hc, -⟩ := List.forall_mem_cons.mp hreturns
        exact .line (.inr hc) (.inl rfl) (relaid_drop (List.forall_mem_cons.mp hvoid).2 hfresh)
    refine ⟨margin depth ++ (l ++ '\n' :: z), ?_, relaid_margin depth ?_⟩
    · rw [laidLine, if_neg hblank, List.cons_append, List.append_assoc]
    · cases l with
      | nil => exact absurd rfl hblank
      | cons c l => exact .same c (hend.append l)

/-- All lines of a text at a depth, with `e` behind the text and `z` behind its last line. -/
theorem relaid_lines (depth : Nat) (cut : List Char → List Char)
    (hcut : ∀ l, ∃ returns, (∀ c ∈ returns, c = '\r') ∧ l = cut l ++ returns) (text : List Char)
    (hline : Relaid tail false e ('\n' :: z)) (hfresh : Relaid tail true e z) :
    ∃ w, (lines text).flatMap (fun l => laidLine depth (cut l)) ++ '\n' :: z = '\n' :: w
      ∧ Relaid tail true (text ++ e) w := by
  induction text using linesInd with
  | last l hl =>
    by_cases hne : l = []
    · subst hne
      exact ⟨z, rfl, hfresh⟩
    · obtain ⟨returns, hreturns, heq⟩ := hcut l
      obtain ⟨w, hw, hlaid⟩ := relaid_line depth (cut l) hreturns hline hfresh
      refine ⟨w, by rw [lines_of_not_mem hl hne, List.flatMap_singleton, hw], ?_⟩
      rwa [← List.append_assoc, ← heq] at hlaid
  | line l rest hl ih =>
    obtain ⟨w, hw, hlaid⟩ := ih
    obtain ⟨first, hfirst, heq⟩ := exists_dropFinalReturn l
    obtain ⟨second, hsecond, heq'⟩ := hcut (dropFinalReturn l)
    have hreturns : ∀ c ∈ second ++ first, c = '\r' := by
      rw [List.forall_mem_append]
      exact ⟨hsecond, hfirst⟩
    -- The rest of the text is what stands behind this line.
    obtain ⟨w', hw', hlaid'⟩ := relaid_line depth (cut (dropFinalReturn l)) hreturns
      (.line (.inl rfl) (.inl rfl) hlaid) (.drop (isVoid_of_break (.inl rfl)) hlaid)
    refine ⟨w', ?_, ?_⟩
    · rw [lines_append hl, List.flatMap_cons, List.append_assoc, hw, hw']
    · rw [← List.append_assoc, ← List.append_assoc, ← heq', ← heq] at hlaid'
      rwa [List.append_assoc, List.cons_append]

end

/-- Whoever reads a text where it is laid out reads what stands in the text alone. -/
theorem readAlike_lines (depth : Nat) (cut : List Char → List Char)
    (hcut : ∀ l, ∃ returns, (∀ c ∈ returns, c = '\r') ∧ l = cut l ++ returns)
    (text tail : List Char) :
    ReadAlike text ((lines text).flatMap (fun l => laidLine depth (cut l)) ++ '\n' :: tail) := by
  obtain ⟨w, hw, hlaid⟩ := relaid_lines depth cut hcut text (@Relaid.cut tail) .stop
  rw [List.append_nil] at hlaid
  rw [hw]
  exact (Relaid.line (.inl rfl) (.inl rfl) hlaid).readAlike

theorem readAlike_laid (depth : Nat) (text tail : List Char) :
    ReadAlike text (laid depth text ++ '\n' :: tail) :=
  readAlike_lines depth id (fun l => ⟨[], nofun, (List.append_nil l).symm⟩) text tail

theorem readAlike_laidDeeper (depth : Nat) (text tail : List Char) :
    ReadAlike text (laidDeeper depth text ++ '\n' :: tail) :=
  readAlike_lines (depth + 1) dropFinalReturn exists_dropFinalReturn text tail

/-! ## Parts at their places -/

/-- A part of a listing: a text and the depth of its lines. -/
structure Part where
  depth : Nat
  text : String

/-- The parts of a method. -/
def Listing.methodParts (name parameter : String) (body : List String) : List Part :=
  ⟨2, name ++ "(" ++ parameter ++ ") \x7b"⟩ :: (body.map (Part.mk 3) ++ [⟨2, "\x7d,"⟩])

/-- The parts of a listing in their order. -/
def Listing.parts (l : Listing) : List Part :=
  l.declarations.map (fun d => ⟨1, "let " ++ d ++ ";"⟩)
  ++ [⟨1, l.script⟩, ⟨1, "const " ++ lifecycleName ++ " = \x7b"⟩]
  ++ methodParts "construct" targetName l.construct
  ++ methodParts "refresh" changedName l.refresh
  ++ methodParts "teardown" targetName l.teardown
  ++ [⟨1, "\x7d;"⟩, ⟨1, "return " ++ lifecycleName ++ ";"⟩]

/-- The lines of some parts, each behind a line feed. -/
def laidParts (ps : List Part) : List Char := ps.flatMap fun p => laid p.depth p.text.toList

/-- The head of the function around the parts. -/
def Listing.head (l : Listing) : List Char :=
  "export default function ".toList ++ ((l.name.getD "").toList ++ ("() ".toList ++ ['\x7b']))

/-- The text of a compiled component up to the end of some parts. -/
def Listing.codeUpTo (l : Listing) (ps : List Part) : List Char := l.head ++ laidParts ps

@[simp] theorem laidParts_append (a b : List Part) :
    laidParts (a ++ b) = laidParts a ++ laidParts b := List.flatMap_append

@[simp] theorem laidParts_cons (p : Part) (ps : List Part) :
    laidParts (p :: ps) = laid p.depth p.text.toList ++ laidParts ps := List.flatMap_cons

theorem laidLines_body (l : Listing) : laidLines l.body = laidParts l.parts := by
  have hbody : l.body = l.parts.flatMap fun p => Listing.linesAt p.depth p.text := by
    simp [Listing.body, Listing.parts, Listing.method, Listing.methodParts, List.flatMap_append,
      List.flatMap_map]
  rw [hbody, laidLines, List.flatMap_assoc, laidParts]
  exact List.flatMap_congr fun p _ => laidLines_linesAt p.depth p.text

/-- The text of a compiled component is that of its parts in a function. -/
theorem toList_render_parts (l : Listing) :
    l.render.toList = l.codeUpTo l.parts ++ ['\n', '\x7d', '\n'] := by
  have hassoc (a b c x : List Char) : a ++ (b ++ (c ++ (braced x [] ++ ['\n'])))
      = (a ++ (b ++ (c ++ ['\x7b']))) ++ x ++ ['\n', '\x7d', '\n'] := by
    simp [braced]
  rw [toList_render, laidLines_body]
  exact hassoc _ _ _ _

/-- What stands behind the first parts. -/
theorem drop_render (l : Listing) (i : Nat) :
    l.render.toList.drop (l.codeUpTo (l.parts.take i)).length
      = laidParts (l.parts.drop i) ++ ['\n', '\x7d', '\n'] := by
  have hsplit : l.codeUpTo l.parts = l.codeUpTo (l.parts.take i) ++ laidParts (l.parts.drop i) := by
    rw [Listing.codeUpTo, Listing.codeUpTo, List.append_assoc, ← laidParts_append,
      List.take_append_drop]
  rw [toList_render_parts, hsplit, List.append_assoc, List.drop_left]

/-- Behind every part comes the end of a line. -/
theorem exists_lineFeed (ps : List Part) (z : List Char) :
    ∃ w, laidParts ps ++ '\n' :: z = '\n' :: w := by
  induction ps with
  | nil => exact ⟨z, rfl⟩
  | cons p ps ih =>
    obtain ⟨w, hw⟩ := ih
    obtain ⟨w', hw', -⟩ := relaid_lines p.depth id
      (fun l => ⟨[], nofun, (List.append_nil l).symm⟩) p.text.toList (@Relaid.cut w) .stop
    exact ⟨w', by rw [laidParts_cons, List.append_assoc, hw, ← hw']; rfl⟩

/-- Every part stands at its place in the text, and a line ends behind it. -/
theorem exists_place {l : Listing} {before after : List Part} {p : Part}
    (h : l.parts = before ++ p :: after) :
    ∃ tail, l.render.toList
      = l.codeUpTo before ++ (laid p.depth p.text.toList ++ '\n' :: tail) := by
  obtain ⟨tail, htail⟩ := exists_lineFeed after ['\x7d', '\n']
  refine ⟨tail, ?_⟩
  rw [toList_render_parts, h, ← htail]
  simp only [Listing.codeUpTo, laidParts_append, laidParts_cons, List.append_assoc]

end Emit

/-! ## Compiled components -/

/-- The characters of the last of so many tokens of a text. -/
def tokenText (text : List Char) (count : Nat) : Option String :=
  ((Reader.asking (.replicate count .token)).answers (.before text) count).getLast?.map
    (String.ofList ·.text)

end Reactive
