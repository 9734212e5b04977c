/-
  The rules for selections and templates.
-/
import Reactive.Markup.Builder.Table

namespace Reactive.Markup.Build

/-- A start tag inside a selection. -/
def selectStart (tag : Tag) : Build Outcome := do
  match tag.name with
  | "html" => repeatedRoot tag
  | "option" =>
    if ← currentIs "option" then pop
    discard (openTag tag)
    return .done
  | "optgroup" =>
    if ← currentIs "option" then pop
    if ← currentIs "optgroup" then pop
    discard (openTag tag)
    return .done
  | "select" =>
    closeSelect
    return .done
  | "input" | "keygen" | "textarea" =>
    if (← get).hasInReach .select "select" then
      popNamed "select"
      return .again (← get).resetMode (.tag tag)
    else return .done
  | "script" | "template" => headTag tag
  | _ => return .done
where
  /-- Closes the selection. -/
  closeSelect : Build Unit := do
    if (← get).hasInReach .select "select" then
      popNamed "select"
      modify fun b => { b with mode := b.resetMode }

/-- An end tag inside a selection. -/
def selectEnd (tag : Tag) : Build Outcome := do
  match tag.name with
  | "optgroup" =>
    let b ← get
    match b.stack with
    | a :: c :: _ =>
      if (b.nameOf a).isHtml "option" && (b.nameOf c).isHtml "optgroup" then pop
    | _ => pure ()
    if ← currentIs "optgroup" then pop
    return .done
  | "option" =>
    if ← currentIs "option" then pop
    return .done
  | "select" =>
    selectStart.closeSelect
    return .done
  | "template" => closeTemplate
  | _ => return .done

/-- The rules inside a selection. -/
def inSelect (token : Token) : Build Outcome := do
  match token with
  | .null | .doctype _ => return .done
  | .chars _ text =>
    addText text
    return .done
  | .comment =>
    addComment
    return .done
  | .endOfInput => inBody token
  | .tag tag => if tag.isStart then selectStart tag else selectEnd tag

/-- The rules inside a selection that stands in a table. -/
def inSelectInTable (token : Token) : Build Outcome := do
  match token with
  | .tag tag =>
    let parts := ["caption", "table", "tbody", "tfoot", "thead", "tr", "td", "th"]
    if parts.contains tag.name then
      if tag.isStart || (← get).hasInReach .table tag.name then
        popNamed "select"
        return .again (← get).resetMode token
      else return .done
    else inSelect token
  | _ => inSelect token

/-- The rules inside a template: the first tag decides how its content is read. -/
def inTemplate (token : Token) : Build Outcome := do
  match token with
  | .chars .. | .comment => inBody token
  | .null | .doctype _ => return .done
  | .endOfInput => templateEnd
  | .tag tag =>
    if tag.isStart then
      if headTags.contains tag.name then headTag tag
      else
        let mode : Mode := match tag.name with
          | "caption" | "colgroup" | "tbody" | "tfoot" | "thead" => .inTable
          | "col" => .inColumnGroup
          | "tr" => .inTableBody
          | "td" | "th" => .inRow
          | _ => .inBody
        modify fun b => { b with templateModes := mode :: b.templateModes.tail }
        return .again mode token
    else if tag.name == "template" then closeTemplate
    else return .done

end Reactive.Markup.Build
