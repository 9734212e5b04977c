/-
  Writing JSON.

  `compress` writes a value without blanks; `pretty` puts every item on a line of its own,
  two blanks deeper than what holds it, and leaves empty arrays and objects on one line.
-/
import Reactive.Json.Value
import Reactive.Json.Quoted

namespace Reactive.Json

/-- The text of an integer. -/
def integerText (i : Int) : List Char :=
  match i with
  | .ofNat n => Nat.toDigits 10 n
  | .negSucc n => '-' :: Nat.toDigits 10 (n + 1)

/-! ## Without blanks -/

mutual

/-- A value without blanks. -/
def compactChars : Json → List Char
  | .null => "null".toList
  | .bool b => if b then "true".toList else "false".toList
  | .integer i => integerText i
  | .decimal t => t.toList
  | .string s => quoteChars s.toList
  | .array items => '[' :: compactItems items
  | .object fields => '\x7b' :: compactFields fields

/-- Items behind the opening bracket. -/
def compactItems : List Json → List Char
  | [] => [']']
  | [v] => compactChars v ++ [']']
  | v :: vs => compactChars v ++ ',' :: compactItems vs

/-- Fields behind the opening brace. -/
def compactFields : List (String × Json) → List Char
  | [] => ['\x7d']
  | [(k, v)] => quoteChars k.toList ++ ':' :: (compactChars v ++ ['\x7d'])
  | (k, v) :: fs => quoteChars k.toList ++ ':' :: (compactChars v ++ ',' :: compactFields fs)

end

/-- A value on one line. -/
def compress (v : Json) : String := String.ofList (compactChars v)

/-! ## On lines -/

/-- The start of a line at a depth. -/
def lineStart (depth : Nat) : List Char := '\n' :: List.replicate (2 * depth) ' '

mutual

/-- A value that starts on a line at a depth. -/
def prettyChars (depth : Nat) : Json → List Char
  | .array [] => "[]".toList
  | .array (v :: vs) => '[' :: (lineStart (depth + 1) ++ prettyChars (depth + 1) v
      ++ prettyItems depth vs)
  | .object [] => ['\x7b', '\x7d']
  | .object ((k, v) :: fs) => '\x7b' :: (lineStart (depth + 1) ++ quoteChars k.toList
      ++ ':' :: ' ' :: prettyChars (depth + 1) v ++ prettyFields depth fs)
  | .null => "null".toList
  | .bool b => if b then "true".toList else "false".toList
  | .integer i => integerText i
  | .decimal t => t.toList
  | .string s => quoteChars s.toList

/-- Items behind the first one. -/
def prettyItems (depth : Nat) : List Json → List Char
  | [] => lineStart depth ++ [']']
  | v :: vs => ',' :: (lineStart (depth + 1) ++ prettyChars (depth + 1) v ++ prettyItems depth vs)

/-- Fields behind the first one. -/
def prettyFields (depth : Nat) : List (String × Json) → List Char
  | [] => lineStart depth ++ ['\x7d']
  | (k, v) :: fs => ',' :: (lineStart (depth + 1) ++ quoteChars k.toList
      ++ ':' :: ' ' :: prettyChars (depth + 1) v ++ prettyFields depth fs)

end

/-- A value on lines. -/
def pretty (v : Json) : String := String.ofList (prettyChars 0 v)

end Reactive.Json
