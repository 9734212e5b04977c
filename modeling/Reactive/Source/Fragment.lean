/-
  Texts with expressions in them.
-/
import Reactive.Error
import Reactive.Source.Brace

namespace Reactive.Source

open Reactive.Text

/-- A part of a text. -/
inductive Fragment where
  | literal (text : String)
  /-- The code inside a pair of braces. -/
  | expression (code : String)
deriving DecidableEq, Repr, Inhabited

/-- Why a text does not split. -/
inductive SplitFault where
  | openBrace | closeBrace | emptyExpression
deriving DecidableEq, Repr, Inhabited

/-- The error for a fault in a text. -/
def SplitFault.error (site : BraceSite) (text : String) : SplitFault → CompileError
  | .openBrace => .unmatchedOpenBrace site text
  | .closeBrace => .unmatchedCloseBrace site text
  | .emptyExpression => .emptyExpression site text

/-- The literal that has been read, last character first, in front of fragments. -/
def flush (literal : List Char) (fs : List Fragment) : List Fragment :=
  if literal.isEmpty then fs else .literal (String.ofList literal.reverse) :: fs

/-- The fragments of a text behind a literal, from left to right; the first fault wins. -/
def splitFrom (literal : List Char) : List Char → Except SplitFault (List Fragment)
  | [] => .ok (flush literal [])
  | c :: cs =>
    if c = '\x7b' then
      match h : region? (c :: cs) with
      | none => .error .openBrace
      | some (r, rest) =>
        have : rest.length < (c :: cs).length := length_of_regionFrom h
        let code := trim (inside r)
        if code.isEmpty then .error .emptyExpression
        else do return flush literal (.expression (String.ofList code) :: (← splitFrom [] rest))
    else if c = '\x7d' then .error .closeBrace
    else splitFrom (c :: literal) cs
termination_by cs => cs.length
decreasing_by all_goals (simp only [List.length_cons] at *; omega)

/-- The fragments of a text, or its first fault. -/
def splitChars (cs : List Char) : Except SplitFault (List Fragment) := splitFrom [] cs

/-- The fragments of a text. -/
def splitFragments (text : String) (site : BraceSite) : Except CompileError (List Fragment) :=
  match splitChars text.toList with
  | .ok fs => .ok fs
  | .error fault => .error (fault.error site text)

/-- A text that is an attribute value: literal, or one expression in braces. Only the first and the
last character are looked at. -/
def classifyValue (value : String) : Except CompileError Fragment :=
  let cs := trim value.toList
  let text := String.ofList cs
  let opens := cs.head? == some '\x7b'
  let closes := cs.getLast? == some '\x7d'
  if opens && closes then
    let code := trim (inside cs)
    if code.isEmpty then .error (.emptyExpression .attributeValue text)
    else .ok (.expression (String.ofList code))
  else if opens then .error (.unmatchedOpenBrace .attributeValue text)
  else if closes then .error (.unmatchedCloseBrace .attributeValue text)
  else .ok (.literal text)

end Reactive.Source
