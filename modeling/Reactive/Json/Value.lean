/-
  JSON values.

  Objects are lists of fields in the order they are written; looking a key up takes its
  last field. Whole numbers are kept as integers; a number with a point or an exponent is
  kept as its text, since nothing here computes with it.
-/

namespace Reactive

/-- A JSON value. -/
inductive Json where
  | null
  | bool (value : Bool)
  | integer (value : Int)
  | decimal (text : String)
  | string (value : String)
  | array (items : List Json)
  | object (fields : List (String × Json))
deriving Repr, Inhabited

namespace Json

/-- The last field of this name. -/
def lookup (key : String) (fields : List (String × Json)) : Option Json :=
  (fields.reverse.find? fun f => f.1 == key).map (·.2)

mutual

/-- The levels of arrays and objects in a value. -/
def depth : Json → Nat
  | .array items => depthOfItems items + 1
  | .object fields => depthOfFields fields + 1
  | _ => 0

/-- The levels in the deepest of some values. -/
def depthOfItems : List Json → Nat
  | [] => 0
  | v :: vs => max v.depth (depthOfItems vs)

/-- The levels in the deepest of some fields. -/
def depthOfFields : List (String × Json) → Nat
  | [] => 0
  | (_, v) :: fs => max v.depth (depthOfFields fs)

end

/-- A natural number. -/
def nat (n : Nat) : Json := .integer n

/-- A list of strings. -/
def strings (ss : List String) : Json := .array (ss.map .string)

/-- A value or `null`. -/
def optional : Option Json → Json
  | none => .null
  | some v => v

/-- The string that a value is. -/
def asString? : Json → Option String
  | .string s => some s
  | _ => none

/-- The natural number that a value is. -/
def asNat? : Json → Option Nat
  | .integer (.ofNat n) => some n
  | _ => none

/-- The truth value that a value is. -/
def asBool? : Json → Option Bool
  | .bool b => some b
  | _ => none

/-- The items of an array. -/
def asArray? : Json → Option (List Json)
  | .array items => some items
  | _ => none

/-- The fields of an object. -/
def asObject? : Json → Option (List (String × Json))
  | .object fields => some fields
  | _ => none

/-- The strings of an array of strings. -/
def asStrings? (v : Json) : Option (List String) := do
  (← v.asArray?).mapM asString?

end Json

end Reactive
