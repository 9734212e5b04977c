/-
  Documents under construction.

  Nodes are numbered in the order of their creation and refer to each other by number, so
  that a node can be moved. Number 0 is the document.
-/
import Reactive.Markup.Name
import Reactive.Markup.Token

namespace Reactive.Markup

/-- What a node is. -/
inductive NodeKind where
  | document
  /-- `contents` is the node that takes what is put into a template. -/
  | element (name : Name) (attrs : List Attr) (contents : Option Nat)
  /-- Text, last character first. -/
  | text (reversed : List Char)
  | comment
deriving Repr, Inhabited

/-- A node with its place. -/
structure Slot where
  kind : NodeKind
  parent : Option Nat
  children : Array Nat
deriving Repr, Inhabited

/-- All nodes by number. -/
structure Arena where
  slots : Array Slot
deriving Inhabited

namespace Arena

/-- Only the document. -/
def start : Arena := ⟨#[⟨.document, none, #[]⟩]⟩

/-- The kind of a node. -/
def kind (a : Arena) (id : Nat) : NodeKind :=
  match a.slots[id]? with
  | some s => s.kind
  | none => .comment

/-- The parent of a node. -/
def parent? (a : Arena) (id : Nat) : Option Nat := a.slots[id]?.bind (·.parent)

/-- The children of a node. -/
def children (a : Arena) (id : Nat) : Array Nat :=
  match a.slots[id]? with
  | some s => s.children
  | none => #[]

/-- The name of an element. -/
def name (a : Arena) (id : Nat) : Name :=
  match a.kind id with
  | .element n _ _ => n
  | _ => ⟨.html, ""⟩

/-- The attributes of an element. -/
def attrs (a : Arena) (id : Nat) : List Attr :=
  match a.kind id with
  | .element _ as _ => as
  | _ => []

/-- The arena with one node changed. -/
def change (a : Arena) (id : Nat) (f : Slot → Slot) : Arena := ⟨a.slots.modify id f⟩

/-- A new node without a place. -/
def create (a : Arena) (kind : NodeKind) : Nat × Arena :=
  (a.slots.size, ⟨a.slots.push ⟨kind, none, #[]⟩⟩)

/-- Takes a node out of its parent. -/
def detach (a : Arena) (id : Nat) : Arena :=
  match a.parent? id with
  | none => a
  | some p => (a.change p fun s => { s with children := s.children.filter (· != id) }).change id
      fun s => { s with parent := none }

/-- Puts a node behind the children of another one. -/
def append (a : Arena) (parent id : Nat) : Arena :=
  let a := a.detach id
  (a.change parent fun s => { s with children := s.children.push id }).change id
    fun s => { s with parent := some parent }

/-- Puts a node before another one that has a parent. -/
def insertBefore (a : Arena) (parent sibling id : Nat) : Arena :=
  let a := a.detach id
  let put (s : Slot) : Slot :=
    let cs := s.children.toList
    let joined := cs.takeWhile (· != sibling) ++ id :: cs.dropWhile (· != sibling)
    { s with children := joined.toArray }
  (a.change parent put).change id fun s => { s with parent := some parent }

/-- Adds characters to a text node; tells whether the node is one. -/
def extendText (a : Arena) (id : Nat) (text : List Char) : Option Arena :=
  match a.kind id with
  | .text _ => some (a.change id fun s =>
      match s.kind with
      | .text r => { s with kind := .text (text.reverse ++ r) }
      | _ => s)
  | _ => none

/-- Puts text behind the children of a node, into the last one if that is text. -/
def appendText (a : Arena) (parent : Nat) (text : List Char) : Arena :=
  match ((a.children parent).back?).bind fun id => a.extendText id text with
  | some a => a
  | none =>
    let (id, a) := a.create (.text text.reverse)
    a.append parent id

/-- The child before another one. -/
def previousSibling? (a : Arena) (parent sibling : Nat) : Option Nat :=
  ((a.children parent).toList.takeWhile (· != sibling)).getLast?

/-- Puts text before a node, into the node before it if that is text. -/
def insertTextBefore (a : Arena) (parent sibling : Nat) (text : List Char) : Arena :=
  match (a.previousSibling? parent sibling).bind fun id => a.extendText id text with
  | some a => a
  | none =>
    let (id, a) := a.create (.text text.reverse)
    a.insertBefore parent sibling id

/-- Moves all children of a node behind those of another one. -/
def moveChildren (a : Arena) (source target : Nat) : Arena :=
  (a.children source).foldl (fun a id => a.append target id) a

end Arena

end Reactive.Markup
