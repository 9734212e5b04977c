/-
  The state of building a document.

  The stack of open elements has the current one in front. The list of formatting elements
  has the latest one in front; markers in it fence off what is outside a table cell, a
  caption or an object.
-/
import Reactive.Markup.Arena

namespace Reactive.Markup

/-- Which rules the next token falls under. -/
inductive Mode where
  | initial | beforeHtml | beforeHead | inHead | afterHead | inBody | text | inTable | inTableText
  | inCaption | inColumnGroup | inTableBody | inRow | inCell | inSelect | inSelectInTable
  | inTemplate | afterBody | inFrameset | afterFrameset | afterAfterBody | afterAfterFrameset
deriving DecidableEq, Repr, Inhabited

/-- An entry in the list of formatting elements: an element with the tag it was made for. -/
inductive Entry where
  | marker
  | element (id : Nat) (tag : Tag)
deriving Repr, Inhabited

/-- The state of building. -/
structure Builder where
  arena : Arena
  mode : Mode
  /-- The mode to go back to after a text. -/
  savedMode : Mode
  /-- Modes of the open templates, innermost first. -/
  templateModes : List Mode
  stack : List Nat
  formatting : List Entry
  head : Option Nat
  form : Option Nat
  framesetAllowed : Bool
  /-- A line feed that comes next is dropped. -/
  skipLineFeed : Bool
  /-- Content that a table cannot hold is put before the table. -/
  fostering : Bool
  /-- The old rules of layout hold: a table does not end a paragraph. -/
  oldRules : Bool
  /-- Runs of text met inside a table, latest first. -/
  pending : List (Bool × List Char)
  content : ContentModel
deriving Inhabited

/-- Nothing read yet. -/
def Builder.start : Builder :=
  { arena := .start, mode := .initial, savedMode := .initial, templateModes := [], stack := []
    formatting := [], head := none, form := none, framesetAllowed := true, skipLineFeed := false
    fostering := false, oldRules := false, pending := [], content := .data }

/-- Steps of building. -/
abbrev Build (α : Type) := StateM Builder α

/-- What becomes of a token. -/
inductive Outcome where
  | done
  /-- The token falls under the rules of a mode, which is entered. -/
  | again (mode : Mode) (token : Token)
  /-- The token is looked at anew. -/
  | retry (token : Token)
deriving Inhabited

namespace Builder

/-! ## Open elements -/

/-- The name of a node. -/
def nameOf (b : Builder) (id : Nat) : Name := b.arena.name id

/-- The current element. -/
def current (b : Builder) : Nat := b.stack.headD 0

/-- The name of the current element. -/
def currentName (b : Builder) : Name := b.nameOf b.current

/-- The root element. -/
def root (b : Builder) : Nat := b.stack.getLastD 0

/-- The body element, if it is open. -/
def body? (b : Builder) : Option Nat :=
  match b.stack.reverse with
  | _ :: id :: _ => if (b.nameOf id).isHtml "body" then some id else none
  | _ => none

/-- An open element that fits is met before the reach ends. -/
def within (b : Builder) (reach : Reach) (fits : Nat → Bool) : Bool :=
  go b.stack
where
  /-- The look through the stack. -/
  go : List Nat → Bool
    | [] => false
    | id :: ids => fits id || (!reach.stopsAt (b.nameOf id) && go ids)

/-- An open element of this name is met before the reach ends. -/
def hasInReach (b : Builder) (reach : Reach) (name : String) : Bool :=
  b.within reach fun id => (b.nameOf id).isHtml name

/-- An element of this name is open. -/
def hasOpen (b : Builder) (name : String) : Bool :=
  b.stack.any fun id => (b.nameOf id).isHtml name

/-- The mode that the open elements ask for. -/
def resetMode (b : Builder) : Mode :=
  go b.stack
where
  /-- The look through the stack. -/
  go : List Nat → Mode
    | [] => .inBody
    | id :: ids =>
      let name := b.nameOf id
      if name.space != .html then go ids
      else match name.text with
        | "select" => selectMode ids
        | "td" | "th" => if ids.isEmpty then go ids else .inCell
        | "tr" => .inRow
        | "tbody" | "thead" | "tfoot" => .inTableBody
        | "caption" => .inCaption
        | "colgroup" => .inColumnGroup
        | "table" => .inTable
        | "template" => b.templateModes.headD .inTemplate
        | "head" => if ids.isEmpty then go ids else .inHead
        | "body" => .inBody
        | "frameset" => .inFrameset
        | "html" => if b.head.isNone then .beforeHead else .afterHead
        | _ => go ids
  /-- The mode of a selection: it matters whether it stands in a table. -/
  selectMode : List Nat → Mode
    | [] => .inSelect
    | id :: ids =>
      if (b.nameOf id).isHtml "template" then .inSelect
      else if (b.nameOf id).isHtml "table" then .inSelectInTable
      else selectMode ids

end Builder

namespace Build

/-! ## The stack -/

/-- Takes the current element off the stack. -/
def pop : Build Unit := modify fun b => { b with stack := b.stack.tail }

/-- Puts an element on the stack. -/
def push (id : Nat) : Build Unit := modify fun b => { b with stack := id :: b.stack }

/-- Takes elements off the stack up to and with the first one that fits. -/
def popThrough (fits : Name → Bool) : Build Unit :=
  modify fun b => { b with stack := (b.stack.dropWhile fun id => !fits (b.nameOf id)).tail }

/-- Takes elements off the stack up to and with the first one of this name. -/
def popNamed (name : String) : Build Unit := popThrough (·.isHtml name)

/-- Takes elements off the stack until the current one fits. -/
def popUntil (fits : Name → Bool) : Build Unit :=
  modify fun b => { b with stack := b.stack.dropWhile fun id => !fits (b.nameOf id) }

/-- Takes an element out of the stack. -/
def removeOpen (id : Nat) : Build Unit :=
  modify fun b => { b with stack := b.stack.filter (· != id) }

/-- Ends elements whose end may be left out. -/
def impliedEnds (group : List String) : Build Unit :=
  modify fun b => { b with stack := b.stack.dropWhile fun id => (b.nameOf id).isOneOf group }

/-- Ends elements whose end may be left out, except those of a name. -/
def impliedEndsBut (name : String) : Build Unit := impliedEnds (impliedEndTags.filter (· != name))

/-- The current element has this name. -/
def currentIs (name : String) : Build Bool := return (← get).currentName.isHtml name

/-- Enters a mode. -/
def enter (mode : Mode) : Build Unit := modify fun b => { b with mode := mode }

/-- No frames can follow. -/
def forbidFrameset : Build Unit := modify fun b => { b with framesetAllowed := false }

/-! ## Putting nodes in their place -/

/-- Where a new node goes. -/
inductive Spot where
  | last (parent : Nat)
  | before (parent sibling : Nat)

/-- The node that takes the children of an element. -/
def holder (a : Arena) (id : Nat) : Nat :=
  match a.kind id with
  | .element _ _ (some contents) => contents
  | _ => id

/-- Where misplaced content goes: before the innermost table, or into the innermost template. -/
def fosterSpot (b : Builder) : List Nat → Spot
  | [] => .last b.root
  | id :: ids =>
    let name := b.nameOf id
    if name.isHtml "template" then .last (holder b.arena id)
    else if name.isHtml "table" then
      match b.arena.parent? id with
      | some parent => .before parent id
      | none => .last (ids.headD 0)
    else fosterSpot b ids

/-- Where a new node goes that is meant for `target`. -/
def spotFor (b : Builder) (target : Nat) : Spot :=
  if b.fostering && (b.nameOf target).isOneOf fosterTags then fosterSpot b b.stack
  else .last (holder b.arena target)

/-- Puts a node where one meant for `target` goes. -/
def placeAt (target id : Nat) : Build Unit :=
  modify fun b =>
    match spotFor b target with
    | .last parent => { b with arena := b.arena.append parent id }
    | .before parent sibling => { b with arena := b.arena.insertBefore parent sibling id }

/-- Adds text to the current element. -/
def addText (text : List Char) : Build Unit :=
  modify fun b =>
    match spotFor b b.current with
    | .last parent => { b with arena := b.arena.appendText parent text }
    | .before parent sibling => { b with arena := b.arena.insertTextBefore parent sibling text }

/-- A new node without a place. -/
def createNode (kind : NodeKind) : Build Nat := do
  let b ← get
  let (id, arena) := b.arena.create kind
  set { b with arena := arena }
  return id

/-- A new element without a place; a template gets a node for its contents. -/
def createElement (name : Name) (attrs : List Attr) : Build Nat := do
  if name.isHtml "template" then
    let contents ← createNode .document
    createNode (.element name attrs (some contents))
  else createNode (.element name attrs none)

/-- A new element in its place. -/
def place (name : Name) (attrs : List Attr) : Build Nat := do
  let id ← createElement name attrs
  placeAt (← get).current id
  return id

/-- A new element that is opened. -/
def openElement (name : Name) (attrs : List Attr) : Build Nat := do
  let id ← place name attrs
  push id
  return id

/-- Opens the element of a tag. -/
def openTag (tag : Tag) : Build Nat := openElement ⟨.html, tag.name⟩ tag.attrs

/-- The element of a tag, which holds nothing. -/
def placeTag (tag : Tag) : Build Nat := place ⟨.html, tag.name⟩ tag.attrs

/-- Opens an element that no tag was written for. -/
def openImplied (name : String) : Build Nat := openElement ⟨.html, name⟩ []

/-- Adds a comment to the current element. -/
def addComment : Build Unit := do
  let id ← createNode .comment
  placeAt (← get).current id

/-- Adds a comment to a node. -/
def addCommentTo (parent : Nat) : Build Unit := do
  let id ← createNode .comment
  modify fun b => { b with arena := b.arena.append parent id }

/-- Opens the root element. -/
def openRoot (attrs : List Attr) : Build Unit := do
  let id ← createElement ⟨.html, "html"⟩ attrs
  modify fun b => { b with arena := b.arena.append 0 id }
  push id

/-- Opens the element of a tag and reads its text as a content model asks. -/
def openRaw (tag : Tag) (model : ContentModel) : Build Outcome := do
  discard (openTag tag)
  modify fun b => { b with savedMode := b.mode, mode := .text, content := model }
  return .done

/-! ## Paragraphs -/

/-- Closes the open paragraph. -/
def closeParagraph : Build Unit := do
  impliedEndsBut "p"
  popNamed "p"

/-- Closes a paragraph that is in reach of a button. -/
def closeParagraphInReach : Build Unit := do
  if (← get).hasInReach .button "p" then closeParagraph

end Build

end Reactive.Markup
