/-
  The rules for the body of a document.
-/
import Reactive.Markup.Foreign
import Reactive.Markup.Builder.Head

namespace Reactive.Markup.Build

/-! ## Groups of tags -/

/-- Blocks: they close an open paragraph. -/
def blockTags : List String := [
  "address", "article", "aside", "blockquote", "center", "details", "dialog", "dir", "div", "dl",
  "fieldset", "figcaption", "figure", "footer", "header", "hgroup", "main", "menu", "nav", "ol",
  "p", "section", "summary", "ul"]

/-- End tags that close their block and what is left open in it. -/
def blockEndTags : List String := [
  "address", "article", "aside", "blockquote", "button", "center", "details", "dialog", "dir",
  "div", "dl", "fieldset", "figcaption", "figure", "footer", "header", "hgroup", "listing", "main",
  "menu", "nav", "ol", "pre", "section", "summary", "ul"]

/-- Formatting elements. -/
def formattingTags : List String := [
  "a", "b", "big", "code", "em", "font", "i", "nobr", "s", "small", "strike", "strong", "tt", "u"]

/-- Elements that fence off formatting. -/
def objectTags : List String := ["applet", "marquee", "object"]

/-- Start tags that mean nothing in the body. -/
def strayTags : List String := [
  "caption", "col", "colgroup", "frame", "head", "tbody", "td", "tfoot", "th", "thead", "tr"]

/-! ## Start tags -/

/-- The attribute `type` asks for a hidden input. -/
def isHidden (tag : Tag) : Bool :=
  match tag.attrs.find? (·.name == "type") with
  | some a => a.value.toList.map Char.toLower == "hidden".toList
  | none => false

/-- The open item that a new item of a list closes. -/
def itemToClose? (b : Builder) (names : List String) : List Nat → Option String
  | [] => none
  | id :: ids =>
    let name := b.nameOf id
    if name.isOneOf names then some name.text
    else if name.isOneOf specialTags && !name.isOneOf ["address", "div", "p"] then none
    else itemToClose? b names ids

/-- An item of a list. -/
def openItem (tag : Tag) : Build Outcome := do
  forbidFrameset
  let b ← get
  let names := if tag.name == "li" then ["li"] else ["dd", "dt"]
  match itemToClose? b names b.stack with
  | some name =>
    impliedEndsBut name
    popNamed name
  | none => pure ()
  closeParagraphInReach
  discard (openTag tag)
  return .done

/-- A drawing or a formula. -/
def openForeign (tag : Tag) (space : Space) : Build Outcome := do
  let tag := match space with
    | .mathml => tag.forMath.unqualified
    | .svg => tag.withSvgAttrs.unqualified
    | .html => tag.unqualified
  if tag.selfClosing then discard (place ⟨space, tag.name⟩ tag.attrs)
  else discard (openElement ⟨space, tag.name⟩ tag.attrs)
  return .done

/-- A second body tag. -/
def repeatedBody (tag : Tag) : Build Outcome := do
  let b ← get
  match b.body? with
  | some id =>
    if b.stack.length != 1 && !b.hasOpen "template" then
      forbidFrameset
      addMissingAttrs id tag.attrs
  | none => pure ()
  return .done

/-- Frames in place of a body that is still empty. -/
def replaceBody (tag : Tag) : Build Outcome := do
  let b ← get
  match b.body? with
  | some id =>
    if b.framesetAllowed then
      modify fun b => { b with
        arena := b.arena.detach id
        stack := b.stack.drop (b.stack.length - 1) }
      discard (openTag tag)
      enter .inFrameset
  | none => pure ()
  return .done

/-- A form; forms do not nest outside templates. -/
def openForm (tag : Tag) : Build Outcome := do
  let b ← get
  if b.form.isSome && !b.hasOpen "template" then return .done
  closeParagraphInReach
  let id ← openTag tag
  unless (← get).hasOpen "template" do modify fun b => { b with form := some id }
  return .done

/-- An element without rules of its own, with the formatting around it opened again. -/
def openPlain (tag : Tag) : Build Outcome := do
  reconstruct
  discard (openTag tag)
  return .done

/-- An element that holds nothing, with the formatting around it opened again. -/
def placeVoid (tag : Tag) : Build Outcome := do
  reconstruct
  discard (placeTag tag)
  unless tag.name == "input" && isHidden tag do forbidFrameset
  return .done

/-- A block. -/
def openBlock (tag : Tag) : Build Outcome := do
  closeParagraphInReach
  discard (openTag tag)
  return .done

/-- A start tag in the body. -/
def bodyStart (tag : Tag) : Build Outcome := do
  let name := tag.name
  if name == "html" then repeatedRoot tag
  else if headTags.contains name then headTag tag
  else if name == "body" then repeatedBody tag
  else if name == "frameset" then replaceBody tag
  else if blockTags.contains name then openBlock tag
  else if headingTags.contains name then
    closeParagraphInReach
    if (← get).currentName.isOneOf headingTags then pop
    discard (openTag tag)
    return .done
  else if formattingTags.contains name then
    if name == "a" then closeOuterAnchor
    reconstruct
    if name == "nobr" && (← get).hasInReach .default "nobr" then
      adopt "nobr"
      reconstruct
    openFormatting tag
    return .done
  else if objectTags.contains name then
    reconstruct
    discard (openTag tag)
    addMarker
    forbidFrameset
    return .done
  else if strayTags.contains name then return .done
  else match name with
    | "pre" | "listing" =>
      closeParagraphInReach
      discard (openTag tag)
      modify fun b => { b with skipLineFeed := true, framesetAllowed := false }
      return .done
    | "form" => openForm tag
    | "li" | "dd" | "dt" => openItem tag
    | "plaintext" =>
      closeParagraphInReach
      discard (openTag tag)
      modify fun b => { b with content := .plaintext }
      return .done
    | "button" =>
      if (← get).hasInReach .default "button" then
        impliedEnds impliedEndTags
        popNamed "button"
      reconstruct
      discard (openTag tag)
      forbidFrameset
      return .done
    | "table" =>
      if !(← get).oldRules then closeParagraphInReach
      discard (openTag tag)
      forbidFrameset
      enter .inTable
      return .done
    | "area" | "br" | "embed" | "img" | "keygen" | "wbr" | "input" => placeVoid tag
    | "image" => placeVoid { tag with name := "img" }
    | "param" | "source" | "track" =>
      discard (placeTag tag)
      return .done
    | "hr" =>
      closeParagraphInReach
      discard (placeTag tag)
      forbidFrameset
      return .done
    | "textarea" =>
      modify fun b => { b with skipLineFeed := true, framesetAllowed := false }
      openRaw tag (.rcdata "textarea")
    | "xmp" =>
      closeParagraphInReach
      reconstruct
      forbidFrameset
      openRaw tag (.rawtext "xmp")
    | "iframe" =>
      forbidFrameset
      openRaw tag (.rawtext "iframe")
    | "noembed" | "noscript" => openRaw tag (.rawtext name)
    | "select" =>
      reconstruct
      discard (openTag tag)
      forbidFrameset
      let inTable := [Mode.inTable, .inCaption, .inTableBody, .inRow, .inCell].contains (← get).mode
      enter (if inTable then .inSelectInTable else .inSelect)
      return .done
    | "optgroup" | "option" =>
      if ← currentIs "option" then pop
      openPlain tag
    | "rb" | "rtc" =>
      if (← get).hasInReach .default "ruby" then impliedEnds impliedEndTags
      discard (openTag tag)
      return .done
    | "rp" | "rt" =>
      if (← get).hasInReach .default "ruby" then impliedEndsBut "rtc"
      discard (openTag tag)
      return .done
    | "math" => openForeign tag .mathml
    | "svg" => openForeign tag .svg
    | _ => openPlain tag

/-! ## End tags -/

/-- The end tag of a form. -/
def closeForm : Build Outcome := do
  let b ← get
  if b.hasOpen "template" then
    if b.hasInReach .default "form" then
      impliedEnds impliedEndTags
      popNamed "form"
  else
    set { b with form := none }
    match b.form with
    | some id =>
      if b.within .default (· == id) then
        impliedEnds impliedEndTags
        removeOpen id
    | none => pure ()
  return .done

/-- Closes an element of this name if it is in reach. -/
def closeInReach (reach : Reach) (name : String) : Build Unit := do
  if (← get).hasInReach reach name then
    impliedEnds impliedEndTags
    popNamed name

/-- An end tag in the body. -/
def bodyEnd (tag : Tag) : Build Outcome := do
  let name := tag.name
  if blockEndTags.contains name then
    closeInReach .default name
    return .done
  else if headingTags.contains name then
    let b ← get
    if b.within .default fun id => (b.nameOf id).isOneOf headingTags then
      impliedEnds impliedEndTags
      popThrough (·.isOneOf headingTags)
    return .done
  else if formattingTags.contains name then
    adopt name
    return .done
  else if objectTags.contains name then
    if (← get).hasInReach .default name then
      impliedEnds impliedEndTags
      popNamed name
      clearToMarker
    return .done
  else match name with
    | "template" => closeTemplate
    | "body" =>
      if (← get).hasInReach .default "body" then enter .afterBody
      return .done
    | "html" =>
      if (← get).hasInReach .default "body" then return .again .afterBody (.tag tag)
      else return .done
    | "form" => closeForm
    | "p" =>
      unless (← get).hasInReach .button "p" do discard (openImplied "p")
      closeParagraph
      return .done
    | "li" | "dd" | "dt" =>
      if (← get).hasInReach (if name == "li" then .listItem else .default) name then
        impliedEndsBut name
        popNamed name
      return .done
    | "br" => placeVoid { tag with isStart := true, attrs := [] }
    | _ =>
      closeOther name
      return .done

/-- The end of the text inside a template. -/
def templateEnd : Build Outcome := do
  if (← get).hasOpen "template" then
    leaveTemplate
    return .again (← get).mode .endOfInput
  else return .done

/-- The rules inside the body. -/
def inBody (token : Token) : Build Outcome := do
  match token with
  | .null | .doctype _ => return .done
  | .chars blank text =>
    reconstruct
    unless blank do forbidFrameset
    addText text
    return .done
  | .comment =>
    addComment
    return .done
  | .endOfInput =>
    if (← get).templateModes.isEmpty then return .done else templateEnd
  | .tag tag => if tag.isStart then bodyStart tag else bodyEnd tag

/-- The rules inside text that an element reads in its own way. -/
def inText (token : Token) : Build Outcome := do
  match token with
  | .chars _ text =>
    addText text
    return .done
  | .endOfInput =>
    pop
    modify fun b => { b with content := .data }
    return .again (← get).savedMode token
  | .tag _ =>
    pop
    modify fun b => { b with mode := b.savedMode, content := .data }
    return .done
  | _ => return .done

end Reactive.Markup.Build
