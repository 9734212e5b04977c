/-
  Operators: how strongly they bind and how they are written.

  The reader and the printer share these tables, so an expression is parenthesised in print
  exactly where the levels that it is read with ask for it.
-/
import Reactive.Script.Tree

namespace Reactive.Script

/-! ## Precedence -/

namespace Level

/-- How strongly a construct binds; a larger level binds stronger. -/
abbrev lowest : Nat := 0
abbrev comma : Nat := 1
abbrev yield : Nat := 3
abbrev assign : Nat := 4
abbrev conditional : Nat := 5
abbrev coalesce : Nat := 6
abbrev logicalOr : Nat := 7
abbrev logicalAnd : Nat := 8
abbrev bitOr : Nat := 9
abbrev bitXor : Nat := 10
abbrev bitAnd : Nat := 11
abbrev equals : Nat := 12
abbrev compare : Nat := 13
abbrev shift : Nat := 14
abbrev add : Nat := 15
abbrev multiply : Nat := 16
abbrev exponentiation : Nat := 17
abbrev prefixed : Nat := 18
abbrev postfixed : Nat := 19
abbrev new : Nat := 20
abbrev call : Nat := 21
abbrev member : Nat := 22

end Level

def BinaryOp.level : BinaryOp → Nat
  | .eq | .ne | .strictEq | .strictNe => Level.equals
  | .lt | .le | .gt | .ge | .isIn | .instanceOf => Level.compare
  | .shl | .shr | .ushr => Level.shift
  | .add | .sub => Level.add
  | .mul | .div | .rem => Level.multiply
  | .exp => Level.exponentiation
  | .bitOr => Level.bitOr
  | .bitXor => Level.bitXor
  | .bitAnd => Level.bitAnd

def LogicalOp.level : LogicalOp → Nat
  | .coalesce => Level.coalesce
  | .or => Level.logicalOr
  | .and => Level.logicalAnd

/-- A binary or logical operator. -/
inductive InfixOp where
  | binary (op : BinaryOp)
  | logical (op : LogicalOp)
deriving DecidableEq, Repr

def InfixOp.level : InfixOp → Nat
  | .binary op => op.level
  | .logical op => op.level

/-! ## Spelling -/

def UnaryOp.text : UnaryOp → String
  | .plus => "+"
  | .minus => "-"
  | .not => "!"
  | .bitNot => "~"
  | .typeof => "typeof"
  | .void => "void"
  | .delete => "delete"

/-- The operator is written as a word. -/
def UnaryOp.isWord : UnaryOp → Bool
  | .typeof | .void | .delete => true
  | _ => false

def UpdateOp.text : UpdateOp → String
  | .increment => "++"
  | .decrement => "--"

def BinaryOp.text : BinaryOp → String
  | .eq => "=="
  | .ne => "!="
  | .strictEq => "==="
  | .strictNe => "!=="
  | .lt => "<"
  | .le => "<="
  | .gt => ">"
  | .ge => ">="
  | .shl => "<<"
  | .shr => ">>"
  | .ushr => ">>>"
  | .add => "+"
  | .sub => "-"
  | .mul => "*"
  | .div => "/"
  | .rem => "%"
  | .exp => "**"
  | .bitOr => "|"
  | .bitXor => "^"
  | .bitAnd => "&"
  | .isIn => "in"
  | .instanceOf => "instanceof"

def LogicalOp.text : LogicalOp → String
  | .or => "||"
  | .and => "&&"
  | .coalesce => "??"

def AssignOp.text : AssignOp → String
  | .plain => "="
  | .binary op => op.text ++ "="
  | .logical op => op.text ++ "="

end Reactive.Script
