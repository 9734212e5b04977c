/-
  Documents.
-/
import Reactive.Markup.Arena

namespace Reactive.Markup

/-- A node of a document, without its vocabulary. -/
inductive Dom where
  | element (name : String) (attrs : List Attr) (children : List Dom)
  | text (value : String)
  | comment
deriving Repr, Inhabited

/-- The node with a number, with `depth` levels below it at most. -/
def Arena.dom (a : Arena) : Nat → Nat → Dom
  | 0, _ => .comment
  | depth + 1, id =>
    match a.kind id with
    | .document => .element "" [] ((a.children id).toList.map (a.dom depth))
    | .element name attrs _ => .element name.text attrs ((a.children id).toList.map (a.dom depth))
    | .text reversed => .text (String.ofList reversed.reverse)
    | .comment => .comment

/-- The nodes at the top of a document; no node has more levels below it than there are nodes. -/
def Arena.document (a : Arena) : List Dom :=
  (a.children 0).toList.map (a.dom a.slots.size)

end Reactive.Markup
