/-
  The text of plain expressions.

  Plain expressions are put together from variables, keywords, small numbers and strings by members,
  indices, calls, operators, conditions, assignments and commas. Their printed text is said here
  without a page: every expression has a strength, and where its surroundings ask for a stronger one
  it stands in parentheses. Trees are compared without their spans and parentheses.
-/
import Reactive.Proofs.Script.Operand
import Reactive.Proofs.Script.Address
import Reactive.Script.Print

namespace Reactive.Script

open Reactive.Script.Parser Reactive.Script.Printer

/-! ## Trees without parentheses -/

/-- What is left of a node without its span, and without itself if it is a parenthesis. -/
def bareNode (l : Label) (cs : List Tree) : Tree :=
  match l, cs with
  | .paren, [t] => t
  | l, cs => .node l .none cs

namespace Tree

/-- A tree without spans and parentheses. -/
def bare (t : Tree) : Tree := t.fold fun l _ ps => bareNode l (ps.map (·.2))

theorem bare_node (l : Label) (s : Span) (cs : List Tree) :
    (node l s cs).bare = bareNode l (cs.map bare) := by
  rw [bare, fold_node, List.map_map]
  rfl

@[simp] theorem bare_paren (s : Span) (t : Tree) : (node .paren s [t]).bare = t.bare := by
  rw [bare_node]
  rfl

@[simp] theorem withoutParens_paren (s : Span) (t : Tree) :
    (node .paren s [t]).withoutParens = t.withoutParens := by
  rw [withoutParens]

/-! ## Strength -/

end Tree

/-- How strongly an expression with this label holds together. -/
def Label.strength : Label → Nat
  | .sequence => Level.comma
  | .assign _ => Level.assign
  | .conditional => Level.conditional
  | .logical op => op.level
  | .binary op => op.level
  | .unary _ => Level.prefixed
  | .update _ before => if before then Level.prefixed else Level.postfixed
  | .call .. => Level.new
  | _ => Level.member

/-- How strongly an expression holds together, parentheses aside. -/
def Tree.strength (t : Tree) : Nat := t.withoutParens.label.strength

/-- The sign that keeps its distance from an equal one before it. -/
def Label.sign? : Label → Option Char
  | .unary .plus => some '+'
  | .unary .minus => some '-'
  | .update op _ => some op.text.front
  | _ => none

/-- The sign of an expression, parentheses aside. -/
def Tree.sign? (t : Tree) : Option Char := t.withoutParens.label.sign?

/-- The expression is a number, parentheses aside. -/
def Tree.isNumber (t : Tree) : Bool :=
  match t.withoutParens.label with
  | .number _ => true
  | _ => false

theorem BinaryOp.level_bounds (op : BinaryOp) :
    Level.bitOr ≤ op.level ∧ op.level ≤ Level.exponentiation := by
  cases op <;> decide

theorem LogicalOp.level_bounds (op : LogicalOp) :
    Level.coalesce ≤ op.level ∧ op.level ≤ Level.logicalAnd := by
  cases op <;> decide

theorem Label.strength_bounds (l : Label) :
    Level.comma ≤ l.strength ∧ l.strength ≤ Level.member := by
  unfold Label.strength
  split
  case h_4 op =>
    exact ⟨Nat.le_trans (by decide) op.level_bounds.1, Nat.le_trans op.level_bounds.2 (by decide)⟩
  case h_5 op =>
    exact ⟨Nat.le_trans (by decide) op.level_bounds.1, Nat.le_trans op.level_bounds.2 (by decide)⟩
  case h_7 => split <;> decide
  all_goals decide

/-- Only operators have a sign. -/
theorem Label.sign?_of_strong {l : Label} (h : Level.postfixed < l.strength) : l.sign? = none := by
  unfold Label.sign?
  split
  case h_3 op before =>
    have hle : (Label.update op before).strength ≤ Level.postfixed := by
      cases before <;> exact Nat.le_of_ble_eq_true rfl
    exact absurd h (Nat.not_lt.mpr hle)
  case h_4 => rfl
  all_goals exact absurd h (by decide)

/-! ## Plain expressions -/

/-- Values that are written as words. -/
def keywordValues : List (Label × String) :=
  [(.this, "this"), (.null, "null"), (.boolean true, "true"), (.boolean false, "false")]

/-- Variables and their members, which can be written to. -/
def Label.isReference : Label → Bool
  | .identifier _ | .member false | .index false => true
  | _ => false

theorem Label.isReference_cases {l : Label} (h : l.isReference = true) :
    (∃ w, l = .identifier w) ∨ l = .member false ∨ l = .index false := by
  unfold Label.isReference at h
  split at h
  case h_1 w => exact .inl ⟨w, rfl⟩
  case h_2 => exact .inr (.inl rfl)
  case h_3 => exact .inr (.inr rfl)
  case h_4 => cases h

/-- Expressions of the common forms. A sequence holds no sequence and a logical operator not itself
on its right, since the printer writes both without parentheses; and a number has no members. -/
inductive Plain : Tree → Prop
  | name {w : String} {s : Span} (hw : IsVariable w) : Plain (.node (.identifier w) s [])
  | keyword {l : Label} {w : String} {s : Span} (h : (l, w) ∈ keywordValues) : Plain (.node l s [])
  | number {n : Nat} {s : Span} (h : n < 1000) : Plain (.node (.number (Number.ofNat n)) s [])
  | string {v : List Nat} {s : Span} (h : ∀ n ∈ v, n.isValidChar) : Plain (.node (.string v) s [])
  | paren {t : Tree} {s : Span} (h : Plain t) : Plain (.node .paren s [t])
  | member {o : Tree} {w : String} {s s' : Span} (h : Plain o) (hnumber : o.isNumber = false)
      (hw : IsName w) : Plain (.node (.member false) s [o, .node (.word w) s' []])
  | index {o i : Tree} {s : Span} (h : Plain o) (hi : Plain i) :
      Plain (.node (.index false) s [o, i])
  | call {f : Tree} {args : List Tree} {s : Span} (h : Plain f) (hargs : ∀ a ∈ args, Plain a) :
      Plain (.node (.call false false) s (f :: args))
  | unary {op : UnaryOp} {t : Tree} {s : Span} (h : Plain t) : Plain (.node (.unary op) s [t])
  | update {op : UpdateOp} {before : Bool} {t : Tree} {s : Span} (h : Plain t)
      (ht : t.label.isReference = true) : Plain (.node (.update op before) s [t])
  | binary {op : BinaryOp} {a b : Tree} {s : Span} (ha : Plain a) (hb : Plain b) :
      Plain (.node (.binary op) s [a, b])
  | logical {op : LogicalOp} {a b : Tree} {s : Span} (ha : Plain a) (hb : Plain b)
      (hright : b.withoutParens.label ≠ .logical op) : Plain (.node (.logical op) s [a, b])
  | conditional {a b c : Tree} {s : Span} (ha : Plain a) (hb : Plain b) (hc : Plain c) :
      Plain (.node .conditional s [a, b, c])
  | assign {op : AssignOp} {t v : Tree} {s : Span} (ht : Plain t) (hv : Plain v)
      (htarget : t.label.isReference = true) (hop : AssignOp.ofToken? (.punct op.text) = some op) :
      Plain (.node (.assign op) s [t, v])
  | sequence {t t' : Tree} {ts : List Tree} {s : Span} (h : ∀ x ∈ t :: t' :: ts, Plain x)
      (hflat : ∀ x ∈ t :: t' :: ts, x.withoutParens.label ≠ .sequence) :
      Plain (.node .sequence s (t :: t' :: ts))

/-- Parentheses aside, a plain expression is none of the forms that are printed in their own way. -/
theorem Plain.core_label {t : Tree} (h : Plain t) : t.withoutParens.label ≠ .paren
    ∧ t.withoutParens.label ≠ .privateIn ∧ t.withoutParens.label ≠ .identifier "let" := by
  induction h with
  | paren h ih => rwa [Tree.withoutParens_paren]
  | name hw =>
    refine ⟨nofun, nofun, fun heq => ?_⟩
    obtain rfl : _ = "let" := Label.identifier.inj heq
    exact absurd hw (by decide)
  | keyword h =>
    simp only [keywordValues, List.mem_cons, Prod.mk.injEq, List.not_mem_nil, or_false] at h
    rcases h with ⟨rfl, rfl⟩ | ⟨rfl, rfl⟩ | ⟨rfl, rfl⟩ | ⟨rfl, rfl⟩ <;> exact ⟨nofun, nofun, nofun⟩
  | _ => exact ⟨nofun, nofun, nofun⟩

/-! ## Spelling -/

/-- A text in parentheses. -/
def enclosed (x : List Char) : List Char := '(' :: (x ++ [')'])

/-- A child of a node and its text. -/
abbrev Spelled := Tree × List Char

/-- The text of a child where its surroundings bind with a level. -/
def Spelled.within (p : Spelled) (level : Nat) : List Char :=
  if p.1.strength ≤ level then enclosed p.2 else p.2

/-- An operator between its sides. -/
def spaced (op : String) : List Char := ' ' :: (op.toList ++ [' '])

/-- What stands between a prefix operator and its operand. -/
def prefixGap (op : UnaryOp) (operand : Tree) : List Char :=
  if op.isWord || operand.sign? == some op.text.front then [' '] else []

/-- The text of a node, from the texts of its children. -/
def spell (l : Label) (ps : List Spelled) : List Char :=
  match l, ps with
  | .paren, [p] => p.2
  | .identifier n, _ | .word n, _ => n.toList
  | .this, _ => "this".toList
  | .null, _ => "null".toList
  | .boolean b, _ => (if b then "true" else "false").toList
  | .number v, _ => v.text
  | .string v, _ => '"' :: (guardClosingTag (stringText v) ++ ['"'])
  | .member _, [o, w] => o.within Level.postfixed ++ '.' :: w.2
  | .index _, [o, i] => o.within Level.postfixed ++ '[' :: (i.2 ++ [']'])
  | .call .., f :: args =>
    f.within Level.postfixed ++ '(' :: (itemList (args.map (·.within Level.comma)) ++ [')'])
  | .unary op, [t] => op.text.toList ++ (prefixGap op t.1 ++ t.within Level.exponentiation)
  | .update op true, [t] => op.text.toList ++ t.within Level.prefixed
  | .update op false, [t] => t.within Level.postfixed ++ op.text.toList
  | .binary op, [a, b] =>
    a.within (binaryLeftLevel op a.1) ++ (spaced op.text ++ b.within (binarySides op).2)
  | .logical op, [a, b] =>
    a.within (logicalSideLevel op a.1) ++ (spaced op.text ++ b.within (logicalSideLevel op b.1))
  | .conditional, [a, b, c] => a.within Level.conditional
    ++ (spaced "?" ++ (b.within Level.yield ++ (spaced ":" ++ c.within Level.yield)))
  | .assign op, [t, v] => t.within Level.comma ++ (spaced op.text ++ v.within Level.comma)
  | .sequence, ps => itemList (ps.map (·.2))
  | _, _ => []

namespace Tree

/-- The text of an expression. -/
def spelling (t : Tree) : List Char := t.fold fun l _ ps => spell l ps

/-- The text of an expression where its surroundings bind with a level. -/
def spellingAt (t : Tree) (level : Nat) : List Char := Spelled.within (t, t.spelling) level

theorem spelling_node (l : Label) (s : Span) (cs : List Tree) :
    (node l s cs).spelling = spell l (cs.map fun t => (t, t.spelling)) := by
  rw [spelling, fold_node]
  rfl

theorem spellingAt_of_le {t : Tree} {level : Nat} (h : t.strength ≤ level) :
    t.spellingAt level = enclosed t.spelling := if_pos h

theorem spellingAt_of_lt {t : Tree} {level : Nat} (h : level < t.strength) :
    t.spellingAt level = t.spelling := if_neg (Nat.not_le.mpr h)

/-! Parentheses of the source count for nothing. -/

@[simp] theorem strength_paren (s : Span) (t : Tree) :
    (node .paren s [t]).strength = t.strength := by
  rw [strength, withoutParens_paren, strength]

@[simp] theorem sign?_paren (s : Span) (t : Tree) : (node .paren s [t]).sign? = t.sign? := by
  rw [sign?, withoutParens_paren, sign?]

@[simp] theorem isNumber_paren (s : Span) (t : Tree) :
    (node .paren s [t]).isNumber = t.isNumber := by
  rw [isNumber, withoutParens_paren, isNumber]

@[simp] theorem spelling_paren (s : Span) (t : Tree) :
    (node .paren s [t]).spelling = t.spelling := by
  rw [spelling_node]
  rfl

@[simp] theorem spellingAt_paren (s : Span) (t : Tree) (level : Nat) :
    (node .paren s [t]).spellingAt level = t.spellingAt level := by
  rw [spellingAt, spellingAt, Spelled.within, Spelled.within, strength_paren, spelling_paren]

theorem spelling_withoutParens (t : Tree) : t.withoutParens.spelling = t.spelling := by
  fun_induction withoutParens t with
  | case1 s t ih => rw [ih, spelling_paren]
  | case2 => rfl

/-- The value of a string, parentheses aside. -/
def string? (t : Tree) : Option (List Nat) :=
  match t.withoutParens.label with
  | .string v => some v
  | _ => none

theorem spelling_of_string? {t : Tree} {v : List Nat} (h : t.string? = some v) :
    t.spelling = '"' :: (guardClosingTag (stringText v) ++ ['"']) := by
  rw [← spelling_withoutParens]
  unfold string? at h
  generalize t.withoutParens = u at h
  obtain ⟨l, s, cs⟩ := u
  dsimp only [label] at h
  split at h
  · cases h
    rw [spelling_node]
    rfl
  · cases h

/-- The text of an expression that is a statement: a string stands in parentheses, so that it is no
directive. -/
def statementSpelling (t : Tree) : List Char :=
  if t.string?.isSome then enclosed t.spelling else t.spelling

end Tree

end Reactive.Script
