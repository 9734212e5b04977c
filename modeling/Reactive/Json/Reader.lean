/-
  Reading JSON.

  A reader takes a value from the front of a text and returns the rest. Values nest no
  deeper than the text is long, which bounds the recursion. A text that stands for a deeper value
  than the limit is refused as a whole, so it is the same whether the levels are counted while it
  is read or afterwards.
-/
import Reactive.Json.Value

namespace Reactive.Json

/-- A text without its leading blanks. -/
def skipBlanks : List Char → List Char
  | [] => []
  | c :: cs =>
    if c = ' ' || c = '\n' || c = '\t' || c = '\r' then skipBlanks cs else c :: cs

/-! ## Strings -/

/-- The value of a hexadecimal digit. -/
def hexValue? (c : Char) : Option Nat :=
  if '0' ≤ c && c ≤ '9' then some (c.toNat - 48)
  else if 'a' ≤ c && c ≤ 'f' then some (c.toNat - 87)
  else if 'A' ≤ c && c ≤ 'F' then some (c.toNat - 55)
  else none

/-- Four hexadecimal digits. -/
def hexUnit? : List Char → Option (Nat × List Char)
  | a :: b :: c :: d :: cs => do
    let n := (((← hexValue? a) * 16 + (← hexValue? b)) * 16 + (← hexValue? c)) * 16
    return (n + (← hexValue? d), cs)
  | _ => none

/-- The character that an escape by number stands for; two halves of a pair are one character. -/
def unicodeChar? (cs : List Char) : Option (Char × List Char) := do
  let (n, rest) ← hexUnit? cs
  if 0xD800 ≤ n && n ≤ 0xDBFF then
    match rest with
    | '\\' :: 'u' :: more =>
      let (m, rest) ← hexUnit? more
      if 0xDC00 ≤ m && m ≤ 0xDFFF then
        return (Char.ofNat (0x10000 + (n - 0xD800) * 0x400 + (m - 0xDC00)), rest)
      else none
    | _ => none
  else if 0xDC00 ≤ n && n ≤ 0xDFFF then none
  else return (Char.ofNat n, rest)

/-- The character that a short escape stands for. -/
def shortEscape? : Char → Option Char
  | '"' => some '"'
  | '\\' => some '\\'
  | '/' => some '/'
  | 'b' => some '\x08'
  | 'f' => some '\x0c'
  | 'n' => some '\n'
  | 'r' => some '\r'
  | 't' => some '\t'
  | _ => none

/-- A string behind its opening quote. -/
def stringTail? : Nat → List Char → Option (List Char × List Char)
  | 0, _ => none
  | fuel + 1, cs =>
    match cs with
    | [] => none
    | '"' :: rest => some ([], rest)
    | '\\' :: 'u' :: rest => do
      let (c, rest) ← unicodeChar? rest
      let (s, rest) ← stringTail? fuel rest
      return (c :: s, rest)
    | '\\' :: c :: rest => do
      let c ← shortEscape? c
      let (s, rest) ← stringTail? fuel rest
      return (c :: s, rest)
    | c :: rest => do
      if c.toNat < 32 || c = '\\' then none
      let (s, rest) ← stringTail? fuel rest
      return (c :: s, rest)

/-- A string behind its opening quote. -/
def readString? (cs : List Char) : Option (String × List Char) := do
  let (s, rest) ← stringTail? (cs.length + 1) cs
  return (String.ofList s, rest)

/-! ## Numbers -/

/-- The value of decimal digits. -/
def digitsValue (ds : List Char) : Nat := ds.foldl (fun n d => n * 10 + (d.toNat - 48)) 0

/-- Digits at the front of a text, at least one. -/
def digits? (cs : List Char) : Option (List Char × List Char) :=
  match cs.takeWhile Char.isDigit with
  | [] => none
  | ds => some (ds, cs.dropWhile Char.isDigit)

/-- The fraction of a number, with its point. -/
def fraction? : List Char → Option (List Char × List Char)
  | '.' :: cs => (digits? cs).map fun (ds, rest) => ('.' :: ds, rest)
  | cs => some ([], cs)

/-- The exponent of a number, with its mark. -/
def exponent? : List Char → Option (List Char × List Char)
  | e :: cs =>
    if e = 'e' || e = 'E' then
      match cs with
      | '+' :: more => (digits? more).map fun (ds, rest) => (e :: '+' :: ds, rest)
      | '-' :: more => (digits? more).map fun (ds, rest) => (e :: '-' :: ds, rest)
      | _ => (digits? cs).map fun (ds, rest) => (e :: ds, rest)
    else some ([], e :: cs)
  | [] => some ([], [])

/-- The digits before the point: no zero in front of others. -/
def whole? (cs : List Char) : Option (List Char × List Char) := do
  let (ds, rest) ← digits? cs
  match ds with
  | '0' :: _ :: _ => none
  | _ => return (ds, rest)

/-- A number. -/
def number? (cs : List Char) : Option (Json × List Char) := do
  let (negative, body) := match cs with
    | '-' :: rest => (true, rest)
    | _ => (false, cs)
  let (ds, rest) ← whole? body
  let (f, rest) ← fraction? rest
  let (e, rest) ← exponent? rest
  if f.isEmpty && e.isEmpty then
    let n := digitsValue ds
    return (.integer (if negative then -(n : Int) else n), rest)
  else
    let sign := if negative then ['-'] else []
    return (.decimal (String.ofList (sign ++ ds ++ f ++ e)), rest)

/-! ## Values -/

mutual

/-- A value at the front of a text that starts with no blank. -/
def value? : Nat → List Char → Option (Json × List Char)
  | 0, _ => none
  | fuel + 1, cs =>
    match cs with
    | 'n' :: 'u' :: 'l' :: 'l' :: rest => some (.null, rest)
    | 't' :: 'r' :: 'u' :: 'e' :: rest => some (.bool true, rest)
    | 'f' :: 'a' :: 'l' :: 's' :: 'e' :: rest => some (.bool false, rest)
    | '"' :: rest => (readString? rest).map fun (s, rest) => (.string s, rest)
    | '[' :: rest =>
      match skipBlanks rest with
      | ']' :: rest => some (.array [], rest)
      | rest => (items? fuel rest).map fun (vs, rest) => (.array vs, rest)
    | '\x7b' :: rest =>
      match skipBlanks rest with
      | '\x7d' :: rest => some (.object [], rest)
      | rest => (fields? fuel rest).map fun (fs, rest) => (.object fs, rest)
    | _ => number? cs

/-- Items up to the closing bracket. -/
def items? : Nat → List Char → Option (List Json × List Char)
  | 0, _ => none
  | fuel + 1, cs => do
    let (v, rest) ← value? fuel (skipBlanks cs)
    match skipBlanks rest with
    | ']' :: rest => return ([v], rest)
    | ',' :: rest =>
      let (vs, rest) ← items? fuel rest
      return (v :: vs, rest)
    | _ => none

/-- Fields up to the closing brace. -/
def fields? : Nat → List Char → Option (List (String × Json) × List Char)
  | 0, _ => none
  | fuel + 1, cs => do
    match skipBlanks cs with
    | '"' :: rest =>
      let (k, rest) ← readString? rest
      match skipBlanks rest with
      | ':' :: rest =>
        let (v, rest) ← value? fuel (skipBlanks rest)
        match skipBlanks rest with
        | '\x7d' :: rest => return ([(k, v)], rest)
        | ',' :: rest =>
          let (fs, rest) ← fields? fuel rest
          return ((k, v) :: fs, rest)
        | _ => none
      | _ => none
    | _ => none

end

/-- The value that a whole text spells. -/
def spelled? (s : String) : Option Json := do
  let cs := s.toList
  let (v, rest) ← value? (2 * cs.length + 2) (skipBlanks cs)
  match skipBlanks rest with
  | [] => return v
  | _ => none

/-- The levels of arrays and objects that a text may have. -/
def nestingLimit : Nat := 127

/-- The value that a whole text stands for. -/
def parse? (s : String) : Option Json := (spelled? s).filter fun v => v.depth ≤ nestingLimit

end Reactive.Json
