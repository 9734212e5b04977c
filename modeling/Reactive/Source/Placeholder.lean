/-
  Placeholders for regions.

  Before the markup is read, every balanced region in it is replaced by a placeholder, so
  that its text is never taken for markup. Placeholders are numbered in source order and
  are put back in the texts and attribute values that come out.
-/
import Reactive.Source.Brace
import Reactive.Text.Letters

namespace Reactive.Source

open Reactive.Text

/-- How a placeholder starts. -/
def placeholderOpening : List Char := "__MS_EXPR_".toList

/-- How a placeholder ends. -/
def placeholderClosing : List Char := "__".toList

/-- The placeholder with a number. -/
def placeholder (n : Nat) : List Char :=
  placeholderOpening ++ Nat.toDigits 10 n ++ placeholderClosing

/-- The markup with a placeholder for each region, counted from `n`, and the regions. -/
def normalizeFrom (n : Nat) : List Char → List Char × List (List Char)
  | [] => ([], [])
  | c :: cs =>
    if c = '\x7b' then
      match h : region? (c :: cs) with
      | some (r, rest) =>
        have : rest.length < (c :: cs).length := length_of_regionFrom h
        let (text, regions) := normalizeFrom (n + 1) rest
        (placeholder n ++ text, r :: regions)
      | none =>
        let (text, regions) := normalizeFrom n cs
        (c :: text, regions)
    else
      let (text, regions) := normalizeFrom n cs
      (c :: text, regions)
termination_by cs => cs.length
decreasing_by all_goals (simp only [List.length_cons] at *; omega)

/-- The markup with a placeholder for each region, and the regions in order. -/
def normalize (markup : List Char) : List Char × List (List Char) := normalizeFrom 0 markup

/-- The rest of a text behind a part that it starts with. -/
def after? : List Char → List Char → Option (List Char)
  | [], cs => some cs
  | _ :: _, [] => none
  | p :: ps, c :: cs => if p = c then after? ps cs else none

/-- The digits of the placeholder at the front of a text, and the rest behind it. -/
def placeholderAt? (cs : List Char) : Option (List Char × List Char) := do
  let rest ← after? placeholderOpening cs
  let digits := rest.takeWhile isDecimalDigit
  if digits.isEmpty then none
  return (digits, ← after? placeholderClosing (rest.dropWhile isDecimalDigit))

/-- The region that digits stand for. -/
def regionOf? (regions : List (List Char)) (digits : List Char) : Option (List Char) :=
  (regions.mapIdx fun i r => (Nat.toDigits 10 i, r)).lookup digits

/-- A text with regions in place of their placeholders; a placeholder without a region stays. -/
def restoreWithin (regions : List (List Char)) : Nat → List Char → List Char
  | 0, cs => cs
  | _, [] => []
  | fuel + 1, c :: cs =>
    match placeholderAt? (c :: cs) with
    | some (digits, rest) =>
      let text := (regionOf? regions digits).getD
        (placeholderOpening ++ digits ++ placeholderClosing)
      text ++ restoreWithin regions fuel rest
    | none => c :: restoreWithin regions fuel cs

/-- A text with regions in place of their placeholders. -/
def restore (regions : List (List Char)) (cs : List Char) : List Char :=
  restoreWithin regions cs.length cs

end Reactive.Source
