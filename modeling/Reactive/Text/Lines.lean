/-
  Lines of a text.

  A line ends at a line feed; one carriage return right before the line feed belongs
  to the end of the line. A last line without a line feed keeps its carriage return,
  and a final line feed opens no further line.
-/
import Reactive.Text.Blank

namespace Reactive.Text

/-- `cs` cut after every line feed, the line feeds dropped; the last piece may be empty. -/
def splitLines : List Char → List (List Char)
  | [] => [[]]
  | c :: cs =>
    if c = '\n' then [] :: splitLines cs
    else match splitLines cs with
      | [] => [[c]]
      | l :: ls => (c :: l) :: ls

/-- One carriage return at the end, dropped. -/
def dropFinalReturn (l : List Char) : List Char :=
  match l.getLast? with
  | some '\r' => l.dropLast
  | _ => l

/-- The lines of a text, without their ends. -/
def lines (cs : List Char) : List (List Char) :=
  let pieces := splitLines cs
  match pieces.getLast? with
  | none => []
  | some last =>
    pieces.dropLast.map dropFinalReturn ++ (if last.isEmpty then [] else [last])

/-- `lines` on strings. -/
def stringLines (s : String) : List String := (lines s.toList).map String.ofList

end Reactive.Text
