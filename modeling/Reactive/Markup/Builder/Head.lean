/-
  The rules for the head of a document.
-/
import Reactive.Markup.Builder.Formatting

namespace Reactive.Markup.Build

/-- Adds attributes that an element does not have. -/
def addMissingAttrs (id : Nat) (attrs : List Attr) : Build Unit :=
  modify fun b => { b with arena := b.arena.change id fun s =>
    match s.kind with
    | .element name old contents =>
      let new := attrs.filter fun a => !old.any (·.name == a.name)
      { s with kind := .element name (old ++ new) contents }
    | _ => s }

/-- An `html` start tag behind the first one. -/
def repeatedRoot (tag : Tag) : Build Outcome := do
  let b ← get
  unless b.hasOpen "template" do addMissingAttrs b.root tag.attrs
  return .done

/-- Opens a template. -/
def openTemplate (tag : Tag) : Build Outcome := do
  discard (openTag tag)
  addMarker
  forbidFrameset
  modify fun b => { b with mode := .inTemplate, templateModes := .inTemplate :: b.templateModes }
  return .done

/-- Leaves the innermost template and enters the mode that the open elements ask for. -/
def leaveTemplate : Build Unit := do
  popNamed "template"
  clearToMarker
  modify fun b => { b with templateModes := b.templateModes.tail }
  modify fun b => { b with mode := b.resetMode }

/-- The end tag of a template. -/
def closeTemplate : Build Outcome := do
  if (← get).hasOpen "template" then
    impliedEnds thoroughEndTags
    leaveTemplate
  return .done

/-- Start tags that the head takes wherever they stand. -/
def headTags : List String := [
  "base", "basefont", "bgsound", "link", "meta", "noframes", "script", "style", "template", "title"]

/-- A start tag that the head takes. -/
def headTag (tag : Tag) : Build Outcome := do
  match tag.name with
  | "title" => openRaw tag (.rcdata "title")
  | "noframes" | "style" | "noscript" => openRaw tag (.rawtext tag.name)
  | "script" => openRaw tag .script
  | "template" => openTemplate tag
  | _ =>
    discard (placeTag tag)
    return .done

/-- The rules inside the head. -/
def inHead (token : Token) : Build Outcome := do
  match token with
  | .chars true text =>
    addText text
    return .done
  | .comment =>
    addComment
    return .done
  | .doctype _ => return .done
  | .tag tag =>
    if tag.isStart then
      if tag.name == "html" then repeatedRoot tag
      else if headTags.contains tag.name || tag.name == "noscript" then headTag tag
      else if tag.name == "head" then return .done
      else leave
    else match tag.name with
      | "head" =>
        pop
        enter .afterHead
        return .done
      | "body" | "html" | "br" => leave
      | "template" => closeTemplate
      | _ => return .done
  | _ => leave
where
  /-- Leaves the head. -/
  leave : Build Outcome := do
    pop
    return .again .afterHead token

/-! ## Before and after the head -/

/-- The rules before anything was read. -/
def initial (token : Token) : Build Outcome := do
  match token with
  | .chars true _ => return .done
  | .comment =>
    addCommentTo 0
    return .done
  | _ =>
    modify fun b => { b with oldRules := true }
    return .again .beforeHtml token

/-- End tags that are no error before the body. -/
def isBodyEnd (name : String) : Bool := ["head", "body", "html", "br"].contains name

/-- The rules before the root. -/
def beforeHtml (token : Token) : Build Outcome := do
  match token with
  | .chars true _ => return .done
  | .comment =>
    addCommentTo 0
    return .done
  | .tag tag =>
    if tag.isStart && tag.name == "html" then
      openRoot tag.attrs
      enter .beforeHead
      return .done
    else if !tag.isStart && !isBodyEnd tag.name then return .done
    else
      openRoot []
      return .again .beforeHead token
  | _ =>
    openRoot []
    return .again .beforeHead token

/-- The rules before the head. -/
def beforeHead (token : Token) : Build Outcome := do
  match token with
  | .chars true _ => return .done
  | .comment =>
    addComment
    return .done
  | .tag tag =>
    if tag.isStart && tag.name == "html" then repeatedRoot tag
    else if tag.isStart && tag.name == "head" then
      let id ← openTag tag
      modify fun b => { b with head := some id, mode := .inHead }
      return .done
    else if !tag.isStart && !isBodyEnd tag.name then return .done
    else implied
  | _ => implied
where
  /-- Opens a head that was not written. -/
  implied : Build Outcome := do
    let id ← openImplied "head"
    modify fun b => { b with head := some id }
    return .again .inHead token

/-- The rules between the head and the body. -/
def afterHead (token : Token) : Build Outcome := do
  match token with
  | .chars true text =>
    addText text
    return .done
  | .comment =>
    addComment
    return .done
  | .tag tag =>
    if tag.isStart then
      if tag.name == "html" then repeatedRoot tag
      else if tag.name == "body" then
        discard (openTag tag)
        forbidFrameset
        enter .inBody
        return .done
      else if tag.name == "frameset" then
        discard (openTag tag)
        enter .inFrameset
        return .done
      else if headTags.contains tag.name then
        let head := (← get).head.getD 0
        push head
        let outcome ← headTag tag
        removeOpen head
        return outcome
      else if tag.name == "head" then return .done
      else implied
    else match tag.name with
      | "template" => closeTemplate
      | "body" | "html" | "br" => implied
      | _ => return .done
  | _ => implied
where
  /-- Opens a body that was not written. -/
  implied : Build Outcome := do
    discard (openImplied "body")
    return .again .inBody token

end Reactive.Markup.Build
