/-
  The rules for tables.

  Content that a table cannot hold is put before the table. Text inside a table waits until
  the next token of another kind: if any of it is not blank, all of it is moved out.
-/
import Reactive.Markup.Builder.Body

namespace Reactive.Markup.Build

/-- A token under the rules of the body, with what a table cannot hold put before the table. -/
def fostered (token : Token) : Build Outcome := do
  modify fun b => { b with fostering := true }
  let outcome ← inBody token
  modify fun b => { b with fostering := false }
  return outcome

/-- Takes elements off the stack until the current one is the table itself. -/
def backToTable : Build Unit := popUntil (·.isOneOf ["html", "table", "template"])

/-- Takes elements off the stack until the current one is a section of the table. -/
def backToSection : Build Unit :=
  popUntil (·.isOneOf ["tbody", "tfoot", "thead", "template", "html"])

/-- Takes elements off the stack until the current one is a row. -/
def backToRow : Build Unit := popUntil (·.isOneOf ["tr", "template", "html"])

/-- Closes the open cell. -/
def closeCell : Build Unit := do
  impliedEnds impliedEndTags
  popThrough (·.isOneOf ["td", "th"])
  clearToMarker

/-- Text between the parts of a table. -/
def tableText (token : Token) : Build Outcome := do
  let b ← get
  if b.currentName.isOneOf fosterTags then
    set { b with savedMode := b.mode }
    return .again .inTableText token
  else fostered token

/-- A start tag between the parts of a table. -/
def tableStart (tag : Tag) : Build Outcome := do
  match tag.name with
  | "caption" =>
    backToTable
    addMarker
    discard (openTag tag)
    enter .inCaption
    return .done
  | "colgroup" =>
    backToTable
    discard (openTag tag)
    enter .inColumnGroup
    return .done
  | "col" =>
    backToTable
    discard (openImplied "colgroup")
    return .again .inColumnGroup (.tag tag)
  | "tbody" | "tfoot" | "thead" =>
    backToTable
    discard (openTag tag)
    enter .inTableBody
    return .done
  | "td" | "th" | "tr" =>
    backToTable
    discard (openImplied "tbody")
    return .again .inTableBody (.tag tag)
  | "table" =>
    if (← get).hasInReach .table "table" then
      popNamed "table"
      return .again (← get).resetMode (.tag tag)
    else return .done
  | "style" | "script" | "template" => headTag tag
  | "input" =>
    if isHidden tag then
      discard (placeTag tag)
      return .done
    else fostered (.tag tag)
  | "form" =>
    let b ← get
    if !b.hasOpen "template" && b.form.isNone then
      let id ← placeTag tag
      modify fun b => { b with form := some id }
    return .done
  | _ => fostered (.tag tag)

/-- End tags that mean nothing between the parts of a table. -/
def strayTableEnds : List String := [
  "body", "caption", "col", "colgroup", "html", "tbody", "td", "tfoot", "th", "thead", "tr"]

/-- An end tag between the parts of a table. -/
def tableEnd (tag : Tag) : Build Outcome := do
  if tag.name == "table" then
    if (← get).hasInReach .table "table" then
      popNamed "table"
      modify fun b => { b with mode := b.resetMode }
    return .done
  else if strayTableEnds.contains tag.name then return .done
  else if tag.name == "template" then closeTemplate
  else fostered (.tag tag)

/-- The rules between the parts of a table. -/
def inTable (token : Token) : Build Outcome := do
  match token with
  | .null | .chars .. => tableText token
  | .comment =>
    addComment
    return .done
  | .endOfInput => inBody token
  | .doctype _ => return .done
  | .tag tag => if tag.isStart then tableStart tag else tableEnd tag

/-- Puts text that has waited where it belongs. -/
def flushPending : Build Unit := do
  let b ← get
  set { b with pending := [] }
  let runs := b.pending.reverse
  if runs.any fun r => !r.1 then
    runs.forM fun r => discard (fostered (.chars r.1 r.2))
  else runs.forM fun r => addText r.2

/-- The rules for text between the parts of a table. -/
def inTableText (token : Token) : Build Outcome := do
  match token with
  | .null => return .done
  | .chars blank text =>
    modify fun b => { b with pending := (blank, text) :: b.pending }
    return .done
  | _ =>
    flushPending
    return .again (← get).savedMode token

/-- Tags that belong to other parts of a table. -/
def tablePartTags : List String := [
  "caption", "col", "colgroup", "tbody", "td", "tfoot", "th", "thead", "tr"]

/-- The rules inside a caption. -/
def inCaption (token : Token) : Build Outcome := do
  match token with
  | .tag tag =>
    let ends := if tag.isStart then tablePartTags.contains tag.name
      else tag.name == "table" || tag.name == "caption"
    if ends then
      if (← get).hasInReach .table "caption" then
        impliedEnds impliedEndTags
        popNamed "caption"
        clearToMarker
        if !tag.isStart && tag.name == "caption" then
          enter .inTable
          return .done
        else return .again .inTable token
      else return .done
    else if !tag.isStart && strayTableEnds.contains tag.name then return .done
    else inBody token
  | _ => inBody token

/-- The rules inside a group of columns. -/
def inColumnGroup (token : Token) : Build Outcome := do
  match token with
  | .chars true text =>
    addText text
    return .done
  | .comment =>
    addComment
    return .done
  | .endOfInput => inBody token
  | .tag tag =>
    match tag.isStart, tag.name with
    | true, "html" => repeatedRoot tag
    | true, "col" =>
      discard (placeTag tag)
      return .done
    | false, "colgroup" =>
      if ← currentIs "colgroup" then
        pop
        enter .inTable
      return .done
    | false, "col" => return .done
    | true, "template" => openTemplate tag
    | false, "template" => closeTemplate
    | _, _ => leave
  | _ => leave
where
  /-- Leaves the group. -/
  leave : Build Outcome := do
    if ← currentIs "colgroup" then
      pop
      return .again .inTable token
    else return .done

/-- The rules inside a section of a table. -/
def inTableBody (token : Token) : Build Outcome := do
  match token with
  | .tag tag =>
    match tag.isStart, tag.name with
    | true, "tr" =>
      backToSection
      discard (openTag tag)
      enter .inRow
      return .done
    | true, "th" | true, "td" =>
      backToSection
      discard (openImplied "tr")
      return .again .inRow token
    | false, "tbody" | false, "tfoot" | false, "thead" =>
      if (← get).hasInReach .table tag.name then
        backToSection
        pop
        enter .inTable
      return .done
    | true, "caption" | true, "col" | true, "colgroup" | true, "tbody" | true, "tfoot"
    | true, "thead" | false, "table" =>
      let b ← get
      if b.within .table fun id => (b.nameOf id).isOneOf ["table", "tbody", "tfoot"] then
        backToSection
        pop
        return .again .inTable token
      else return .done
    | false, "body" | false, "caption" | false, "col" | false, "colgroup" | false, "html"
    | false, "td" | false, "th" | false, "tr" => return .done
    | _, _ => inTable token
  | _ => inTable token

/-- Closes the open row if there is one; tells whether there was. -/
def closeRow : Build Bool := do
  if (← get).hasInReach .table "tr" then
    backToRow
    pop
    return true
  else return false

/-- The rules inside a row. -/
def inRow (token : Token) : Build Outcome := do
  match token with
  | .tag tag =>
    match tag.isStart, tag.name with
    | true, "th" | true, "td" =>
      backToRow
      discard (openTag tag)
      enter .inCell
      addMarker
      return .done
    | false, "tr" =>
      if ← closeRow then enter .inTableBody
      return .done
    | true, "caption" | true, "col" | true, "colgroup" | true, "tbody" | true, "tfoot"
    | true, "thead" | true, "tr" | false, "table" =>
      if ← closeRow then return .again .inTableBody token else return .done
    | false, "tbody" | false, "tfoot" | false, "thead" =>
      if (← get).hasInReach .table tag.name then
        if ← closeRow then return .again .inTableBody token else return .done
      else return .done
    | false, "body" | false, "caption" | false, "col" | false, "colgroup" | false, "html"
    | false, "td" | false, "th" => return .done
    | _, _ => inTable token
  | _ => inTable token

/-- The rules inside a cell. -/
def inCell (token : Token) : Build Outcome := do
  match token with
  | .tag tag =>
    if tag.isStart then
      if tablePartTags.contains tag.name then
        let b ← get
        if b.within .table fun id => (b.nameOf id).isOneOf ["td", "th"] then
          closeCell
          return .again .inRow token
        else return .done
      else inBody token
    else match tag.name with
      | "td" | "th" =>
        if (← get).hasInReach .table tag.name then
          impliedEnds impliedEndTags
          popNamed tag.name
          clearToMarker
          enter .inRow
        return .done
      | "body" | "caption" | "col" | "colgroup" | "html" => return .done
      | "table" | "tbody" | "tfoot" | "thead" | "tr" =>
        if (← get).hasInReach .table tag.name then
          closeCell
          return .again .inRow token
        else return .done
      | _ => inBody token
  | _ => inBody token

end Reactive.Markup.Build
