/-
  What stands behind an expression.

  Printed operators stand between blanks, and what ends an expression stands directly behind it.
  Either way the token behind an operand is known, it is not part of the operand, and no name or
  number goes on with it.
-/
import Reactive.Proofs.Script.Spelling
import Reactive.Proofs.Script.Literal

namespace Reactive.Script

open Reactive.Script.Parser

/-! ## Operators between blanks -/

/-- The token of an operator. -/
def InfixOp.token : InfixOp → TokenKind
  | .binary .isIn => .word "in"
  | .binary .instanceOf => .word "instanceof"
  | .binary op => .punct op.text
  | .logical op => .punct op.text

/-- The text of an operator. -/
def InfixOp.text : InfixOp → String
  | .binary op => op.text
  | .logical op => op.text

theorem InfixOp.ofToken?_token (op : InfixOp) : InfixOp.ofToken? op.token = some op := by
  rcases op with op | op <;> cases op <;> rfl

/-- A slash between blanks is an operator. -/
theorem starts_slash (rest : List Char) :
    Starts (' ' :: '/' :: ' ' :: rest) (.punct "/") (' ' :: rest) :=
  ⟨fun _ _ _ => ⟨rfl, rfl⟩, fun _ _ h => ⟨rfl, h⟩, fun _ _ => rfl⟩

theorem starts_slashEquals (rest : List Char) :
    Starts (' ' :: '/' :: '=' :: ' ' :: rest) (.punct "/=") (' ' :: rest) :=
  ⟨fun _ _ _ => ⟨rfl, rfl⟩, fun _ _ h => ⟨rfl, h⟩, fun _ _ => rfl⟩

/-- A punctuator between blanks. -/
theorem starts_spaced {p : String} {rest : List Char}
    (h : Scans (p.toList ++ ' ' :: rest) (.punct p) (' ' :: rest)) :
    Starts (spaced p ++ rest) (.punct p) (' ' :: rest) := by
  have htext : spaced p ++ rest = [' '] ++ (p.toList ++ ' ' :: rest) := by simp [spaced]
  rw [htext]
  exact h.starts [' '] isGap_space

theorem starts_operator (op : InfixOp) (rest : List Char) :
    Starts (spaced op.text ++ rest) op.token (' ' :: rest) := by
  have hword {w : String} (hw : IsName w) :
      Starts (' ' :: (w.toList ++ ' ' :: rest)) (.word w) (' ' :: rest) :=
    (scans_name hw _ (by rintro _ ⟨⟩; decide)).starts [' '] isGap_space
  rcases op with op | op
  · cases op with
    | isIn => exact hword (w := "in") (by decide)
    | instanceOf => exact hword (w := "instanceof") (by decide)
    | div => exact starts_slash rest
    | _ => exact starts_spaced ⟨rfl, fun _ => ⟨_, rfl, rfl⟩⟩
  · cases op <;> exact starts_spaced ⟨rfl, fun _ => ⟨_, rfl, rfl⟩⟩

theorem starts_assign {op : AssignOp} (hop : AssignOp.ofToken? (.punct op.text) = some op)
    (rest : List Char) : Starts (spaced op.text ++ rest) (.punct op.text) (' ' :: rest) := by
  match op with
  | .plain => exact starts_spaced ⟨rfl, fun _ => ⟨_, rfl, rfl⟩⟩
  | .binary op =>
    cases op with
    | div => exact starts_slashEquals rest
    | add | sub | mul | rem | exp | shl | shr | ushr | bitOr | bitXor | bitAnd =>
      exact starts_spaced ⟨rfl, fun _ => ⟨_, rfl, rfl⟩⟩
    | _ => exact absurd hop (by decide)
  | .logical op => cases op <;> exact starts_spaced ⟨rfl, fun _ => ⟨_, rfl, rfl⟩⟩

theorem starts_question (rest : List Char) :
    Starts (spaced "?" ++ rest) (.punct "?") (' ' :: rest) :=
  starts_spaced ⟨rfl, fun _ => ⟨_, rfl, rfl⟩⟩

theorem starts_colon (rest : List Char) :
    Starts (spaced ":" ++ rest) (.punct ":") (' ' :: rest) :=
  starts_spaced ⟨rfl, fun _ => ⟨_, rfl, rfl⟩⟩

/-! ## Behind an expression -/

namespace Parser

/-- Tokens that end an expression without commas. -/
def closings : List TokenKind := [.punct ")", .punct "]", .punct ",", .punct ":", .endOfInput]

/-- The token stands behind an operand and is not part of it. -/
inductive Follower : TokenKind → Prop where
  | closing {k : TokenKind} (h : k ∈ closings) : Follower k
  | question : Follower (.punct "?")
  | assign {op : AssignOp} (hop : AssignOp.ofToken? (.punct op.text) = some op) :
    Follower (.punct op.text)
  | between (op : InfixOp) : Follower op.token

/-- What stands behind an operand. -/
structure Behind (rest : List Char) (k : TokenKind) : Prop where
  opens : Opens rest k
  ends : EndsNumber rest
  follower : Follower k

/-- Tokens that go on with an operand, and the arrow. -/
def steps : List TokenKind :=
  [.punct ".", .punct "[", .punct "?.", .punct "(", .punct "=>", .word "as", .word "satisfies"]

/-- A follower is none of the tokens that an operand goes on with. -/
theorem Follower.facts {k : TokenKind} (h : Follower k) : k ∉ steps
    ∧ UpdateOp.ofToken? k = none ∧ ∀ raw valid last, k ≠ .template raw valid last := by
  cases h with
  | closing h =>
    simp only [closings, List.mem_cons, List.not_mem_nil, or_false] at h
    rcases h with rfl | rfl | rfl | rfl | rfl <;> exact ⟨by decide, rfl, nofun⟩
  | question => exact ⟨by decide, rfl, nofun⟩
  | @assign op hop =>
    match op with
    | .plain => exact ⟨by decide, rfl, nofun⟩
    | .binary op => cases op <;> exact ⟨by decide, rfl, nofun⟩
    | .logical op => cases op <;> exact ⟨by decide, rfl, nofun⟩
  | between op => rcases op with op | op <;> cases op <;> exact ⟨by decide, rfl, nofun⟩

theorem EndsNumber.endsName {rest : List Char} (h : EndsNumber rest) : EndsName rest := by
  have hall : ∀ c ∈ [' ', ')', ']', ',', '[', '('], isNamePart c = false ∧ c ≠ '\\' :=
    List.all_iff_forall_prop.mp (by decide)
  exact fun c hc => hall c (h c hc)

/-- A parenthesis opens. -/
theorem starts_open {gap : List Char} (hgap : ∀ c ∈ gap, isGap c = true) (rest : List Char) :
    Starts (gap ++ '(' :: rest) (.punct "(") rest :=
  (scans_separator (p := "(") (by decide) rest).starts gap hgap

theorem behind_close (rest : List Char) : Behind (')' :: rest) (.punct ")") :=
  ⟨(starts_close rest).opens, by rintro _ ⟨⟩; decide, .closing (by decide)⟩

theorem behind_bracket (rest : List Char) : Behind (']' :: rest) (.punct "]") :=
  ⟨(starts_bracket rest).opens, by rintro _ ⟨⟩; decide, .closing (by decide)⟩

theorem behind_comma (rest : List Char) : Behind (',' :: rest) (.punct ",") :=
  ⟨(starts_comma rest).opens, by rintro _ ⟨⟩; decide, .closing (by decide)⟩

theorem behind_end : Behind [] .endOfInput :=
  ⟨fun _ _ _ => ⟨rfl, rfl⟩, nofun, .closing (by decide)⟩

theorem endsNumber_spaced (op : String) (rest : List Char) : EndsNumber (spaced op ++ rest) := by
  rintro _ ⟨⟩
  decide

theorem behind_question (rest : List Char) : Behind (spaced "?" ++ rest) (.punct "?") :=
  ⟨(starts_question rest).opens, endsNumber_spaced _ _, .question⟩

theorem behind_colon (rest : List Char) : Behind (spaced ":" ++ rest) (.punct ":") :=
  ⟨(starts_colon rest).opens, endsNumber_spaced _ _, .closing (by decide)⟩

theorem behind_operator (op : InfixOp) (rest : List Char) :
    Behind (spaced op.text ++ rest) op.token :=
  ⟨(starts_operator op rest).opens, endsNumber_spaced _ _, .between op⟩

theorem behind_assign {op : AssignOp} (hop : AssignOp.ofToken? (.punct op.text) = some op)
    (rest : List Char) : Behind (spaced op.text ++ rest) (.punct op.text) :=
  ⟨(starts_assign hop rest).opens, endsNumber_spaced _ _, .assign hop⟩

end Parser

end Reactive.Script
