/-
  Formatting elements.

  A formatting element that is closed by something other than its own end tag is opened
  again for the content that follows. Where formatting and blocks overlap, the adoption
  rules cut the formatting element in two and move the block.
-/
import Reactive.Markup.Builder.State

namespace Reactive.Markup

namespace Entry

/-- The entry is for this node. -/
def isFor (id : Nat) : Entry → Bool
  | .element i _ => i == id
  | .marker => false

/-- The entry is a marker. -/
def isMarker : Entry → Bool
  | .marker => true
  | .element _ _ => false

end Entry

/-- The entries since the last marker, latest first. -/
def sinceMarker (entries : List Entry) : List Entry := entries.takeWhile fun e => !e.isMarker

namespace Build

/-- Adds a marker. -/
def addMarker : Build Unit := modify fun b => { b with formatting := .marker :: b.formatting }

/-- Forgets the entries since the last marker, and the marker. -/
def clearToMarker : Build Unit :=
  modify fun b => { b with formatting := (b.formatting.dropWhile fun e => !e.isMarker).tail }

/-- Forgets the entry of a node. -/
def removeEntry (id : Nat) : Build Unit :=
  modify fun b => { b with formatting := b.formatting.filter fun e => !e.isFor id }

/-! ## Opening again -/

/-- The entry needs no opening. -/
def isMarkerOrOpen (b : Builder) : Entry → Bool
  | .marker => true
  | .element id _ => b.stack.contains id

/-- Opens the elements of some entries, earliest first, and returns the new entries. -/
def reopen : List Entry → Build (List Entry)
  | [] => return []
  | .marker :: es => reopen es
  | .element _ tag :: es => do
    let id ← openTag tag
    return .element id tag :: (← reopen es)

/-- Opens again the formatting elements that were closed by something else. -/
def reconstruct : Build Unit := do
  let b ← get
  let closed := b.formatting.takeWhile fun e => !isMarkerOrOpen b e
  let kept := b.formatting.dropWhile fun e => !isMarkerOrOpen b e
  let opened ← reopen closed.reverse
  modify fun b => { b with formatting := opened.reverse ++ kept }

/-! ## New formatting elements -/

/-- Two tags with the same name and attributes. -/
def sameTag (a b : Tag) : Bool :=
  a.name == b.name && a.attrs.length == b.attrs.length && a.attrs.all b.attrs.contains

/-- Drops the earliest of three equal entries since the last marker. -/
def dropThird (tag : Tag) (entries : List Entry) : List Entry :=
  let matching := (sinceMarker entries).filterMap fun e => match e with
    | .element id t => if sameTag tag t then some id else none
    | .marker => none
  match matching.getLast? with
  | some id => if matching.length ≥ 3 then entries.filter fun e => !e.isFor id else entries
  | none => entries

/-- Opens a formatting element. -/
def openFormatting (tag : Tag) : Build Unit := do
  modify fun b => { b with formatting := dropThird tag b.formatting }
  let id ← openTag tag
  modify fun b => { b with formatting := .element id tag :: b.formatting }

/-! ## End tags in general -/

/-- The stack as an end tag finds it: `some` if an element of its name comes before any special
one. -/
def matchesOpen (b : Builder) (name : String) : List Nat → Bool
  | [] => false
  | id :: ids =>
    (b.nameOf id).isHtml name
    || (!(b.nameOf id).isOneOf specialTags && matchesOpen b name ids)

/-- The end tag of an element without rules of its own. -/
def closeOther (name : String) : Build Unit := do
  let b ← get
  if matchesOpen b name b.stack then
    impliedEndsBut name
    popNamed name

/-! ## Adoption -/

/-- The latest entry of a name since the last marker. -/
def formattingFor? (b : Builder) (name : String) : Option (Nat × Tag) :=
  (sinceMarker b.formatting).findSome? fun e => match e with
    | .element id tag => if tag.name == name then some (id, tag) else none
    | .marker => none

/-- Where the entry of the new formatting element goes. -/
inductive Bookmark where
  /-- In place of the old one. -/
  | replace
  /-- Right behind the entry of a node. -/
  | after (id : Nat)

/-- The tag of the entry of a node. -/
def entryTag? (b : Builder) (id : Nat) : Option Tag :=
  b.formatting.findSome? fun e => match e with
    | .element i tag => if i == id then some tag else none
    | .marker => none

/-- Goes from the furthest block down to the formatting element. Elements on the way are copied,
each taking the one before as its child, or dropped; the result is what stays open, the last copy
and the bookmark. -/
def copyBetween (block : Nat) : Nat → List Nat → Nat → Bookmark →
    Build (List Nat × Nat × Bookmark)
  | _, [], last, mark => return ([], last, mark)
  | count, id :: ids, last, mark => do
    let b ← get
    if count > 3 then
      removeEntry id
      copyBetween block (count + 1) ids last mark
    else match entryTag? b id with
      | none => copyBetween block (count + 1) ids last mark
      | some tag =>
        let copy ← createElement ⟨.html, tag.name⟩ tag.attrs
        modify fun b => { b with
          formatting := b.formatting.map fun e => if e.isFor id then .element copy tag else e
          arena := b.arena.append copy last }
        let mark := if last == block then Bookmark.after copy else mark
        let (open', last, mark) ← copyBetween block (count + 1) ids copy mark
        return (copy :: open', last, mark)

/-- Puts the entry of the new formatting element where the bookmark says. -/
def putEntry (old : Nat) (entry : Entry) (mark : Bookmark) (entries : List Entry) : List Entry :=
  match mark with
  | .replace => entries.map fun e => if e.isFor old then entry else e
  | .after id =>
    let placed := entries.flatMap fun e => if e.isFor id then [entry, e] else [e]
    placed.filter fun e => !e.isFor old

/-- Cuts a formatting element at the furthest block inside it. `above` are the open elements above
the block, `between` those between the block and the formatting element, `below` those below it. -/
def splitFormatting (formatting : Nat) (tag : Tag) (above : List Nat) (block : Nat)
    (between below : List Nat) : Build Unit := do
  let (kept, last, mark) ← copyBetween block 1 between block .replace
  modify fun b => { b with
    arena := b.arena.detach last
    stack := above ++ block :: kept ++ formatting :: below }
  placeAt (below.headD 0) last
  let copy ← createElement ⟨.html, tag.name⟩ tag.attrs
  modify fun b => { b with
    arena := (b.arena.moveChildren block copy).append block copy
    formatting := putEntry formatting (.element copy tag) mark b.formatting
    stack := above ++ copy :: block :: kept ++ below }

/-- One round of adoption; tells whether another one may be needed. -/
def adoptOnce (name : String) : Build Bool := do
  let b ← get
  match formattingFor? b name with
  | none =>
    closeOther name
    return false
  | some (id, tag) =>
    if !b.stack.contains id then
      removeEntry id
      return false
    else if !b.within .default (· == id) then return false
    else
      let inside := b.stack.takeWhile (· != id)
      let below := (b.stack.dropWhile (· != id)).tail
      let isSpecial (i : Nat) : Bool := (b.nameOf i).isOneOf specialTags
      match (inside.filter isSpecial).getLast? with
      | none =>
        modify fun b => { b with stack := below }
        removeEntry id
        return false
      | some block =>
        let above := inside.takeWhile (· != block)
        let between := (inside.dropWhile (· != block)).tail
        splitFormatting id tag above block between below
        return true

/-- Rounds of adoption, at most so many. -/
def adoptRounds (name : String) : Nat → Build Unit
  | 0 => return ()
  | n + 1 => do if ← adoptOnce name then adoptRounds name n

/-- The end tag of a formatting element. -/
def adopt (name : String) : Build Unit := do
  let b ← get
  if b.currentName.isHtml name && !b.formatting.any (Entry.isFor b.current) then pop
  else adoptRounds name 8

/-- An `a` inside another one closes that first. -/
def closeOuterAnchor : Build Unit := do
  let b ← get
  let outer := (sinceMarker b.formatting).findSome? fun e => match e with
    | .element id _ => if (b.nameOf id).isHtml "a" then some id else none
    | .marker => none
  match outer with
  | none => return ()
  | some id =>
    adopt "a"
    removeEntry id
    removeOpen id

end Build

end Reactive.Markup
