/-
  Names of elements and the groups that they form.

  An element belongs to one of three vocabularies. Groups of elements are given by their
  names in the main vocabulary; an element of another one is never in such a group.
-/

namespace Reactive.Markup

/-- The vocabulary of an element. -/
inductive Space where
  | html | svg | mathml
deriving DecidableEq, Repr, Inhabited

/-- The name of an element. -/
structure Name where
  space : Space
  text : String
deriving DecidableEq, Repr, Inhabited

/-- The name is one of some names of the main vocabulary. -/
def Name.isOneOf (n : Name) (group : List String) : Bool := n.space = .html && group.contains n.text

/-- The name is this one of the main vocabulary. -/
def Name.isHtml (n : Name) (text : String) : Bool := n.space = .html && n.text == text

/-! ## Groups -/

/-- Elements with rules of their own. -/
def specialTags : List String := [
  "address", "applet", "area", "article", "aside", "base", "basefont", "bgsound", "blockquote",
  "body", "br", "button", "caption", "center", "col", "colgroup", "dd", "details", "dir", "div",
  "dl", "dt", "embed", "fieldset", "figcaption", "figure", "footer", "form", "frame", "frameset",
  "h1", "h2", "h3", "h4", "h5", "h6", "head", "header", "hgroup", "hr", "html", "iframe", "img",
  "input", "isindex", "li", "link", "listing", "main", "marquee", "menu", "meta", "nav", "noembed",
  "noframes", "noscript", "object", "ol", "p", "param", "plaintext", "pre", "script", "section",
  "select", "source", "style", "summary", "table", "tbody", "td", "template", "textarea", "tfoot",
  "th", "thead", "title", "tr", "track", "ul", "wbr", "xmp"]

/-- Headings. -/
def headingTags : List String := ["h1", "h2", "h3", "h4", "h5", "h6"]

/-- Elements whose end may be left out. -/
def impliedEndTags : List String := [
  "dd", "dt", "li", "option", "optgroup", "p", "rb", "rp", "rt", "rtc"]

/-- Elements whose end may be left out at the end of a template. -/
def thoroughEndTags : List String :=
  impliedEndTags ++ ["caption", "colgroup", "tbody", "td", "tfoot", "th", "thead", "tr"]

/-- Elements that text and other misplaced content is moved out of. -/
def fosterTags : List String := ["table", "tbody", "tfoot", "thead", "tr"]

/-- Elements of formulas that hold text. -/
def Name.isMathText (n : Name) : Bool :=
  n.space = .mathml && ["mi", "mo", "mn", "ms", "mtext"].contains n.text

/-- Elements of drawings that hold ordinary markup. -/
def Name.isSvgHolder (n : Name) : Bool :=
  n.space = .svg && ["foreignObject", "desc", "title"].contains n.text

/-! ## Scopes -/

/-- Where looking for an open element stops. -/
inductive Reach where
  | default | listItem | button | table | select
deriving DecidableEq, Repr, Inhabited

/-- The element ends every reach but those of tables and selections. -/
def Name.endsDefault (n : Name) : Bool :=
  n.isOneOf ["applet", "caption", "html", "table", "td", "th", "marquee", "object", "template"]
  || n.isMathText || n.isSvgHolder

/-- The element ends a reach. -/
def Reach.stopsAt (r : Reach) (n : Name) : Bool :=
  match r with
  | .default => n.endsDefault
  | .listItem => n.endsDefault || n.isOneOf ["ol", "ul"]
  | .button => n.endsDefault || n.isOneOf ["button"]
  | .table => n.isOneOf ["html", "table", "template"]
  | .select => !n.isOneOf ["optgroup", "option"]

end Reactive.Markup
