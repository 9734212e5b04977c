/-
  Blank characters and trimming.

  A blank is a character with the White_Space property. Blanks decide where a text
  starts and ends: the script of a component, a text node, an attribute value and
  the code of an expression are all trimmed before they are read.
-/

namespace Reactive.Text

/-- The White_Space property. -/
def isBlank (c : Char) : Bool :=
  let n := c.toNat
  (9 ≤ n && n ≤ 13) || n == 0x20 || n == 0x85 || n == 0xA0 || n == 0x1680 ||
  (0x2000 ≤ n && n ≤ 0x200A) || n == 0x2028 || n == 0x2029 || n == 0x202F ||
  n == 0x205F || n == 0x3000

/-! ## Trimming -/

/-- `cs` without its leading blanks. -/
def trimLeft (cs : List Char) : List Char := cs.dropWhile isBlank

/-- `cs` without its trailing blanks. -/
def trimRight (cs : List Char) : List Char := (cs.reverse.dropWhile isBlank).reverse

/-- `cs` without the blanks around it. -/
def trim (cs : List Char) : List Char := trimRight (trimLeft cs)

/-- A text of blanks only, the empty text included. -/
def allBlank (cs : List Char) : Bool := cs.all isBlank

/-- `trim` on strings. -/
def trimString (s : String) : String := String.ofList (trim s.toList)

/-- `allBlank` on strings. -/
def blankString (s : String) : Bool := allBlank s.toList

@[simp] theorem trim_nil : trim [] = [] := rfl

@[simp] theorem allBlank_nil : allBlank [] = true := rfl

/-- Trimming leaves nothing exactly of an all-blank text. -/
theorem trimLeft_eq_nil_iff (cs : List Char) : trimLeft cs = [] ↔ allBlank cs = true := by
  induction cs with
  | nil => simp [trimLeft]
  | cons c cs ih =>
    simp only [trimLeft, List.dropWhile_cons, allBlank, List.all_cons] at ih ⊢
    cases h : isBlank c <;> simp_all

end Reactive.Text
