/-
  Where the lines of a listing end up.

  Rendering cuts every part of a listing into lines, drops the blank ones and puts each of the
  others at its depth. A statement of one line keeps its text; code of several lines inside a
  statement keeps its first line beside what stands before it and its last line beside what stands
  behind it, and its other lines are moved. The whole text is one exported function around the
  lines.
-/
import Reactive.Emit.Program
import Reactive.Proofs.Script.Body
import Reactive.Proofs.Text.Lines

namespace Reactive.Emit

open Reactive.Text Reactive.Script Reactive.Script.Parser

/-! ## Lines at a depth -/

/-- What stands before a line at a depth. -/
def margin (depth : Nat) : List Char := List.replicate (2 * depth) ' '

theorem margin_succ (depth : Nat) : margin (depth + 1) = margin depth ++ [' ', ' '] :=
  (List.replicate_append_replicate (m := 2)).symm

theorem toList_indentation (depth : Nat) :
    (List.replicate depth indentation).flatMap String.toList = margin depth := by
  induction depth with
  | zero => rfl
  | succ depth ih => rw [List.replicate_succ', List.flatMap_append, ih, margin_succ]; rfl

theorem isGap_margin (depth : Nat) : ∀ c ∈ margin depth, isGap c = true := by
  intro c hc
  rw [List.eq_of_mem_replicate hc]
  rfl

/-- A line at a depth; a blank one is dropped. -/
def laidLine (depth : Nat) (l : List Char) : List Char :=
  if allBlank l then [] else '\n' :: (margin depth ++ l)

/-- The lines of a text at a depth, each behind a line feed. -/
def laid (depth : Nat) (text : List Char) : List Char := (lines text).flatMap (laidLine depth)

/-- The lines of a listing, each behind a line feed. -/
def laidLines (ls : List String) : List Char := ls.flatMap fun l => '\n' :: l.toList

@[simp] theorem laidLines_append (a b : List String) :
    laidLines (a ++ b) = laidLines a ++ laidLines b := List.flatMap_append

theorem laidLines_linesAt (depth : Nat) (text : String) :
    laidLines (Listing.linesAt depth text) = laid depth text.toList := by
  rw [laid, Listing.linesAt, stringLines, laidLines, List.flatMap_map]
  induction lines text.toList with
  | nil => rfl
  | cons l ls ih =>
    rw [List.map_cons, List.flatMap_cons, ← ih, laidLine]
    by_cases hl : allBlank l = true
    · simp [blankString, hl]
    · simp [blankString, hl, toList_indentation]

theorem laid_line {depth : Nat} {text : List Char} (h : '\n' ∉ text)
    (hblank : allBlank text = false) : laid depth text = '\n' :: (margin depth ++ text) := by
  have hne : text ≠ [] := by
    rintro rfl
    exact absurd hblank (by simp)
  simp [laid, lines_of_not_mem h hne, laidLine, hblank]

/-- The first line of a text, then the others. -/
theorem laid_append {depth : Nat} {l : List Char} (h : '\n' ∉ l) (rest : List Char) :
    laid depth (l ++ '\n' :: rest) = laidLine depth (dropFinalReturn l) ++ laid depth rest := by
  rw [laid, lines_append h, List.flatMap_cons]
  rfl

/-- Behind a text that ends in no carriage return, another one follows on the next line. -/
theorem laid_next (depth : Nat) {text : List Char} (h : text.getLast? ≠ some '\r')
    (rest : List Char) : laid depth (text ++ '\n' :: rest) = laid depth text ++ laid depth rest :=
  flatMap_lines_append rfl h rest

/-! ## Code of several lines inside a statement -/

/-- The lines of some code behind its first one; the last one goes on with the statement. -/
def laidRest (depth : Nat) : List (List Char) → List Char
  | [] => []
  | [last] => '\n' :: (margin depth ++ last)
  | l :: ls => laidLine depth (dropFinalReturn l) ++ laidRest depth ls

theorem laidRest_cons (depth : Nat) (l : List Char) {ls : List (List Char)} (h : ls ≠ []) :
    laidRest depth (l :: ls) = laidLine depth (dropFinalReturn l) ++ laidRest depth ls := by
  obtain ⟨x, xs, rfl⟩ := List.exists_cons_of_ne_nil h
  rfl

/-- Code inside a statement at a depth. -/
def reflowed (depth : Nat) (code : List Char) : List Char :=
  match splitLines code with
  | [] => []
  | [l] => l
  | l :: ls => dropFinalReturn l ++ laidRest depth ls

theorem reflowed_line {depth : Nat} {code : List Char} (h : '\n' ∉ code) :
    reflowed depth code = code := by
  rw [reflowed, splitLines_of_not_mem h]

/-- The end of a statement behind the last line of code. -/
theorem laid_laidRest (depth : Nat) (code : List Char) {post : List Char} (hpost : OneLine post)
    (hblank : allBlank post = false) :
    laid depth (code ++ post) = laidRest depth (splitLines code) ++ post := by
  induction code using linesInd with
  | last l hl =>
    rw [splitLines_of_not_mem hl, laid_line (by simp [hl, hpost.not_mem.1]) (by simp [hblank])]
    simp [laidRest]
  | line l rest hl ih =>
    rw [List.append_assoc, List.cons_append, laid_append hl, ih, splitLines_append hl,
      laidRest_cons depth l (splitLines_ne_nil rest), List.append_assoc]

/-- A statement with code in it. -/
theorem laid_around (depth : Nat) {pre post : List Char} (code : List Char) (hpre : OneLine pre)
    (hblank : allBlank pre = false) (hpost : OneLine post) (hblank' : allBlank post = false) :
    laid depth (pre ++ (code ++ post))
      = '\n' :: (margin depth ++ (pre ++ (reflowed depth code ++ post))) := by
  by_cases h : '\n' ∈ code
  · obtain ⟨l, rest, rfl, hl⟩ := List.eq_append_cons_of_mem h
    obtain ⟨x, xs, hrest⟩ := List.exists_cons_of_ne_nil (splitLines_ne_nil rest)
    -- The first line of the code stays behind `pre`, so only the lines behind it are moved.
    have htext : pre ++ (l ++ '\n' :: rest ++ post) = (pre ++ l) ++ '\n' :: (rest ++ post) := by
      simp
    rw [htext, laid_append (by simp [hl, hpre.not_mem.1]), dropFinalReturn_append hpre.not_mem.2,
      laidLine, if_neg (by simp [hblank]), laid_laidRest depth rest hpost hblank', reflowed,
      splitLines_append hl, hrest]
    simp
  · rw [reflowed_line h,
      laid_line (by simp [h, hpre.not_mem.1, hpost.not_mem.1]) (by simp [hblank])]

/-! ## Separated texts -/

/-- Separated texts: the first one, and each other one behind the separator. -/
theorem toList_intercalate_cons (sep x : String) (xs : List String) :
    (sep.intercalate (x :: xs)).toList = x.toList ++ led sep.toList (xs.map String.toList) := by
  induction xs generalizing x with
  | nil => simp [led]
  | cons y ys ih => simp [led, ih]

/-! ## Blocks -/

/-- The lines of a text in a block at a depth. -/
def laidDeeper (depth : Nat) (text : List Char) : List Char :=
  (lines text).flatMap fun l => laidLine (depth + 1) (dropFinalReturn l)

theorem laidLine_indented (depth : Nat) (l : List Char) :
    laidLine depth (dropFinalReturn (indentation.toList ++ l))
      = laidLine (depth + 1) (dropFinalReturn l) := by
  have hblank : allBlank indentation.toList = true := by decide
  rw [dropFinalReturn_append (by decide), laidLine, laidLine, allBlank_append, hblank,
    Bool.true_and, margin_succ, List.append_assoc]
  rfl

theorem laid_deeper (depth : Nat) (text : String) (rest : List Char) :
    laid depth ((deeper text).toList ++ '\n' :: rest)
      = laidDeeper depth text.toList ++ laid depth rest := by
  -- The line feeds stand between the lines, so the induction is on the lines behind the first one.
  have hjoined (l : List Char) (ls : List (List Char)) (hls : ∀ x ∈ l :: ls, '\n' ∉ x) :
      laid depth (indentation.toList ++ l
          ++ (led ['\n'] (ls.map (indentation.toList ++ ·)) ++ '\n' :: rest))
        = ((l :: ls).flatMap fun l => laidLine (depth + 1) (dropFinalReturn l))
          ++ laid depth rest := by
    induction ls generalizing l with
    | nil =>
      obtain ⟨hl, -⟩ := List.forall_mem_cons.mp hls
      rw [List.map_nil, led, List.flatMap_nil, List.nil_append,
        laid_append (by simp [hl, indentation]), laidLine_indented, List.flatMap_singleton]
    | cons l' ls ih =>
      obtain ⟨hl, hls⟩ := List.forall_mem_cons.mp hls
      have htext : led ['\n'] ((l' :: ls).map (indentation.toList ++ ·)) ++ '\n' :: rest
          = '\n' :: (indentation.toList ++ l'
            ++ (led ['\n'] (ls.map (indentation.toList ++ ·)) ++ '\n' :: rest)) := by
        simp [led]
      rw [htext, laid_append (by simp [hl, indentation]), laidLine_indented, ih l' hls,
        List.flatMap_cons (x := l), List.append_assoc]
  have hfree (l : List Char) (hl : l ∈ lines text.toList) : '\n' ∉ l := not_mem_of_mem_lines hl
  rw [laidDeeper, deeper, stringLines, List.map_map]
  cases hcut : lines text.toList with
  | nil => exact laid_append (l := []) (by simp) rest
  | cons l ls =>
    have hindented : (ls.map ((indentation ++ ·) ∘ String.ofList)).map String.toList
        = ls.map (indentation.toList ++ ·) := by
      simp [Function.comp_def]
    rw [hcut] at hfree
    rw [← hjoined l ls hfree, List.map_cons, toList_intercalate_cons, hindented, List.append_assoc]
    simp

/-! ## The whole text -/

theorem toList_opening (l : Listing) : l.opening.toList = "export default function ".toList
    ++ ((l.name.getD "").toList ++ ("() ".toList ++ ['\x7b', '\n'])) := by
  unfold Listing.opening
  split
  · rename_i name hname
    rw [hname, String.toList_append, String.toList_append, List.append_assoc]
    rfl
  · rename_i hname
    rw [hname]
    decide

theorem toList_render (l : Listing) : l.render.toList = exportOf l.name (laidLines l.body) := by
  -- The line feeds are moved from behind the lines to before them; the first and the last change
  -- places.
  have hlines (ls : List String) : '\n' :: (ls.flatMap fun line => line.toList ++ ['\n'])
      = laidLines ls ++ ['\n'] := by
    induction ls with
    | nil => rfl
    | cons line ls ih =>
      rw [List.flatMap_cons, List.append_assoc, List.singleton_append, ih, laidLines, laidLines,
        List.flatMap_cons, List.append_assoc, List.cons_append]
  have hbody : (String.join (l.body.map (· ++ "\n"))).toList
      = l.body.flatMap fun line => line.toList ++ ['\n'] := by
    simp [String.toList_join, List.flatMap_map]
  have hbraced : ['\x7b', '\n'] ++ ((l.body.flatMap fun line => line.toList ++ ['\n'])
      ++ ['\x7d', '\n']) = braced (laidLines l.body) [] ++ ['\n'] := by
    have hline := congrArg (· ++ ['\x7d', '\n']) (hlines l.body)
    simp only [List.cons_append, List.append_assoc, List.nil_append] at hline
    simp only [braced, List.cons_append, List.append_assoc, List.nil_append, hline]
  calc l.render.toList
      = l.opening.toList ++ ((l.body.flatMap fun line => line.toList ++ ['\n'])
          ++ ['\x7d', '\n']) := by
        rw [Listing.render, String.toList_append, String.toList_append, hbody, List.append_assoc]
        rfl
    _ = "export default function ".toList ++ ((l.name.getD "").toList ++ ("() ".toList
          ++ (braced (laidLines l.body) [] ++ ['\n']))) := by
        rw [toList_opening, ← hbraced]
        simp only [List.append_assoc]
    _ = exportOf l.name (laidLines l.body) := rfl

/-- A method is a property of the lifecycle, with a comma behind it. -/
theorem laidLines_method {name parameter : String} (hname : OneLine name.toList)
    (hparameter : OneLine parameter.toList) (body : List String) :
    laidLines (Listing.method name parameter body)
      = '\n' :: (margin 2
          ++ methodOf name parameter (body.flatMap fun t => laid 3 t.toList) (margin 2))
        ++ [','] := by
  have hopen : laid 2 (name ++ "(" ++ parameter ++ ") \x7b").toList
      = '\n' :: (margin 2 ++ (name.toList ++ '(' :: (parameter.toList ++ [')', ' ', '\x7b']))) := by
    rw [laid_line (by simp [hname.not_mem.1, hparameter.not_mem.1])
      (allBlank_eq_false (c := '(') (by simp) rfl)]
    simp
  have hclose : laid 2 "\x7d,".toList = '\n' :: (margin 2 ++ ['\x7d', ',']) := rfl
  have hbody : laidLines (body.flatMap (Listing.linesAt 3))
      = body.flatMap fun t => laid 3 t.toList := by
    induction body with
    | nil => rfl
    | cons t body ih => rw [List.flatMap_cons, laidLines_append, ih, laidLines_linesAt,
        List.flatMap_cons]
  rw [Listing.method, laidLines_append, laidLines_append, laidLines_linesAt, laidLines_linesAt,
    hopen, hclose, hbody, methodOf, braced]
  simp

end Reactive.Emit
