/-
  The rules behind the body and inside frames, and the choice of rules for a token.
-/
import Reactive.Markup.Builder.Select

namespace Reactive.Markup.Build

/-- The rules behind the body. -/
def afterBody (token : Token) : Build Outcome := do
  match token with
  | .chars true _ => inBody token
  | .comment =>
    addCommentTo (← get).root
    return .done
  | .endOfInput => return .done
  | .tag tag =>
    if tag.name == "html" then
      if tag.isStart then repeatedRoot tag
      else
        enter .afterAfterBody
        return .done
    else return .again .inBody token
  | _ => return .again .inBody token

/-- The rules behind the root. -/
def afterAfterBody (token : Token) : Build Outcome := do
  match token with
  | .chars true _ => inBody token
  | .comment =>
    addCommentTo 0
    return .done
  | .endOfInput => return .done
  | .tag tag =>
    if tag.isStart && tag.name == "html" then repeatedRoot tag else return .again .inBody token
  | _ => return .again .inBody token

/-- The rules inside frames. -/
def inFrameset (token : Token) : Build Outcome := do
  match token with
  | .chars true text =>
    addText text
    return .done
  | .comment =>
    addComment
    return .done
  | .tag tag =>
    match tag.isStart, tag.name with
    | true, "html" => repeatedRoot tag
    | true, "frameset" =>
      discard (openTag tag)
      return .done
    | false, "frameset" =>
      if (← get).stack.length != 1 then
        pop
        unless ← currentIs "frameset" do enter .afterFrameset
      return .done
    | true, "frame" =>
      discard (placeTag tag)
      return .done
    | true, "noframes" => headTag tag
    | _, _ => return .done
  | _ => return .done

/-- The rules behind frames. -/
def afterFrameset (token : Token) : Build Outcome := do
  match token with
  | .chars true text =>
    addText text
    return .done
  | .comment =>
    addComment
    return .done
  | .tag tag =>
    match tag.isStart, tag.name with
    | true, "html" => repeatedRoot tag
    | false, "html" =>
      enter .afterAfterFrameset
      return .done
    | true, "noframes" => headTag tag
    | _, _ => return .done
  | _ => return .done

/-- The rules behind the root of a document of frames. -/
def afterAfterFrameset (token : Token) : Build Outcome := do
  match token with
  | .chars true _ => inBody token
  | .comment =>
    addCommentTo 0
    return .done
  | .tag tag =>
    match tag.isStart, tag.name with
    | true, "html" => repeatedRoot tag
    | true, "noframes" => headTag tag
    | _, _ => return .done
  | _ => return .done

/-- The rules of a mode. -/
def step (mode : Mode) (token : Token) : Build Outcome :=
  match mode with
  | .initial => initial token
  | .beforeHtml => beforeHtml token
  | .beforeHead => beforeHead token
  | .inHead => inHead token
  | .afterHead => afterHead token
  | .inBody => inBody token
  | .text => inText token
  | .inTable => inTable token
  | .inTableText => inTableText token
  | .inCaption => inCaption token
  | .inColumnGroup => inColumnGroup token
  | .inTableBody => inTableBody token
  | .inRow => inRow token
  | .inCell => inCell token
  | .inSelect => inSelect token
  | .inSelectInTable => inSelectInTable token
  | .inTemplate => inTemplate token
  | .afterBody => afterBody token
  | .inFrameset => inFrameset token
  | .afterFrameset => afterFrameset token
  | .afterAfterBody => afterAfterBody token
  | .afterAfterFrameset => afterAfterFrameset token

/-! ## Drawings and formulas -/

/-- Start tags that end a drawing or formula. -/
def breakoutTags : List String := [
  "b", "big", "blockquote", "body", "br", "center", "code", "dd", "div", "dl", "dt", "em", "embed",
  "h1", "h2", "h3", "h4", "h5", "h6", "head", "hr", "i", "img", "li", "listing", "menu", "meta",
  "nobr", "ol", "p", "pre", "ruby", "s", "small", "span", "strong", "strike", "sub", "sup",
  "table", "tt", "u", "ul", "var"]

/-- The tag ends a drawing or formula. -/
def breaksOut (tag : Tag) : Bool :=
  if tag.isStart then
    breakoutTags.contains tag.name
    || (tag.name == "font" && tag.attrs.any fun a => ["color", "face", "size"].contains a.name)
  else tag.name == "br" || tag.name == "p"

/-- Ordinary markup may stand inside the element. -/
def holdsMarkup (n : Name) : Bool := n.space = .html || n.isMathText || n.isSvgHolder

/-- Opens an element of the vocabulary around it. -/
def foreignStart (tag : Tag) : Build Outcome := do
  let space := (← get).currentName.space
  let tag := match space with
    | .mathml => tag.forMath.unqualified
    | .svg => tag.forSvg.unqualified
    | .html => tag.unqualified
  if tag.selfClosing then discard (place ⟨space, tag.name⟩ tag.attrs)
  else discard (openElement ⟨space, tag.name⟩ tag.attrs)
  return .done

/-- What an end tag in a drawing or formula does. -/
inductive ForeignEnd where
  | ignore
  /-- The rules of the mode apply. -/
  | ordinary
  /-- The stack is cut down to this. -/
  | cut (stack : List Nat)

/-- The look through the stack for the element of an end tag; the root is never closed. -/
def foreignEnd (b : Builder) (name : String) (first : Bool) : List Nat → ForeignEnd
  | [] | [_] => .ignore
  | id :: ids =>
    let n := b.nameOf id
    if !first && n.space = .html then .ordinary
    else if n.text.toList.map Char.toLower == name.toList then .cut ids
    else foreignEnd b name false ids

/-- The rules inside drawings and formulas. -/
def inForeign (token : Token) : Build Outcome := do
  match token with
  | .null =>
    addText ['\ufffd']
    return .done
  | .chars blank text =>
    unless blank do forbidFrameset
    addText text
    return .done
  | .comment =>
    addComment
    return .done
  | .doctype _ | .endOfInput => return .done
  | .tag tag =>
    if breaksOut tag then
      pop
      popUntil holdsMarkup
      return .retry token
    else if tag.isStart then foreignStart tag
    else
      let b ← get
      match foreignEnd b tag.name true b.stack with
      | .ignore => return .done
      | .ordinary => step b.mode token
      | .cut stack =>
        set { b with stack := stack }
        return .done

/-- The attribute `encoding` says that an annotation holds ordinary markup. -/
def encodesMarkup (attrs : List Attr) : Bool :=
  let kinds := ["text/html", "application/xhtml+xml"]
  attrs.any fun a => a.name == "encoding" &&
    kinds.contains (String.ofList (a.value.toList.map Char.toLower))

/-- The token falls under the rules for drawings and formulas. -/
def isForeign (b : Builder) (token : Token) : Bool :=
  if b.stack.isEmpty then false
  else
    let name := b.currentName
    let isText := match token with
      | .chars .. | .null => true
      | _ => false
    let isStart := match token with
      | .tag t => t.isStart
      | _ => false
    let isNamed (names : List String) := match token with
      | .tag t => names.contains t.name
      | _ => false
    if token = .endOfInput || name.space = .html then false
    else if name.isMathText && (isText || (isStart && !isNamed ["mglyph", "malignmark"])) then false
    else if name.isSvgHolder && (isText || isStart) then false
    else if name = ⟨.mathml, "annotation-xml"⟩ then
      if isStart && isNamed ["svg"] then false
      else if isText || isStart then !encodesMarkup (b.arena.attrs b.current)
      else true
    else true

/-! ## Whole documents -/

/-- Processes a token, with so many changes of rules at most. -/
def processWithin : Nat → Token → Build Unit
  | 0, _ => return ()
  | fuel + 1, token => do
    let b ← get
    let outcome ← if isForeign b token then inForeign token else step b.mode token
    match outcome with
    | .done => return ()
    | .again mode token =>
      enter mode
      processWithin fuel token
    | .retry token => processWithin fuel token

/-- Processes a token. Each change of rules but a few closes an element. -/
def process (token : Token) : Build Unit := do
  processWithin (8 * (← get).stack.length + 64) token

/-- Takes a token: document types count only at the start, and a line feed may be dropped. -/
def take (token : Token) : Build Unit := do
  let b ← get
  set { b with skipLineFeed := false }
  match token with
  | .doctype oldRules =>
    if b.mode = .initial then
      modify fun b => { b with oldRules := oldRules, mode := .beforeHtml }
  | .chars blank ('\n' :: text) =>
    if !b.skipLineFeed then process token
    else unless text.isEmpty do process (.chars blank text)
  | _ => process token

end Reactive.Markup.Build
