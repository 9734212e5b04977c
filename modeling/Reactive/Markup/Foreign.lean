/-
  Names in drawings and formulas.

  Tags and attributes are read in lower case; drawings and formulas have names with
  capitals, which are put back. An attribute with a known qualifier keeps the part behind
  it.
-/
import Reactive.Markup.Token

namespace Reactive.Markup

/-- Names of elements in drawings that have capitals. -/
def svgTagNames : List String := [
  "altGlyph", "altGlyphDef", "altGlyphItem", "animateColor", "animateMotion", "animateTransform",
  "clipPath", "feBlend", "feColorMatrix", "feComponentTransfer", "feComposite",
  "feConvolveMatrix", "feDiffuseLighting", "feDisplacementMap", "feDistantLight", "feDropShadow",
  "feFlood", "feFuncA", "feFuncB", "feFuncG", "feFuncR", "feGaussianBlur", "feImage", "feMerge",
  "feMergeNode", "feMorphology", "feOffset", "fePointLight", "feSpecularLighting", "feSpotLight",
  "feTile", "feTurbulence", "foreignObject", "glyphRef", "linearGradient", "radialGradient",
  "textPath"]

/-- Names of attributes in drawings that have capitals. -/
def svgAttrNames : List String := [
  "attributeName", "attributeType", "baseFrequency", "baseProfile", "calcMode", "clipPathUnits",
  "diffuseConstant", "edgeMode", "filterUnits", "glyphRef", "gradientTransform", "gradientUnits",
  "kernelMatrix", "kernelUnitLength", "keyPoints", "keySplines", "keyTimes", "lengthAdjust",
  "limitingConeAngle", "markerHeight", "markerUnits", "markerWidth", "maskContentUnits",
  "maskUnits", "numOctaves", "pathLength", "patternContentUnits", "patternTransform",
  "patternUnits", "pointsAtX", "pointsAtY", "pointsAtZ", "preserveAlpha", "preserveAspectRatio",
  "primitiveUnits", "refX", "refY", "repeatCount", "repeatDur", "requiredExtensions",
  "requiredFeatures", "specularConstant", "specularExponent", "spreadMethod", "startOffset",
  "stdDeviation", "stitchTiles", "surfaceScale", "systemLanguage", "tableValues", "targetX",
  "targetY", "textLength", "viewBox", "viewTarget", "xChannelSelector", "yChannelSelector",
  "zoomAndPan"]

/-- Attributes whose qualifier is dropped, with what stays. -/
def qualifiedNames : List (String × String) := [
  ("xlink:actuate", "actuate"), ("xlink:arcrole", "arcrole"), ("xlink:href", "href"),
  ("xlink:role", "role"), ("xlink:show", "show"), ("xlink:title", "title"),
  ("xlink:type", "type"), ("xml:base", "base"), ("xml:lang", "lang"), ("xml:space", "space"),
  ("xmlns", "xmlns"), ("xmlns:xlink", "xlink")]

/-- The name with capitals that a name in lower case stands for. -/
def withCapitals (names : List String) (name : String) : String :=
  (names.find? fun n => String.ofList (n.toList.map Char.toLower) == name).getD name

/-- A tag with the names of its attributes changed. -/
def Tag.renameAttrs (tag : Tag) (f : String → String) : Tag :=
  { tag with attrs := tag.attrs.map fun a => { a with name := f a.name } }

/-- A tag of a drawing, apart from its own name. -/
def Tag.withSvgAttrs (tag : Tag) : Tag := tag.renameAttrs (withCapitals svgAttrNames)

/-- A tag of a drawing. -/
def Tag.forSvg (tag : Tag) : Tag :=
  { tag.withSvgAttrs with name := withCapitals svgTagNames tag.name }

/-- A tag of a formula. -/
def Tag.forMath (tag : Tag) : Tag := tag.renameAttrs (withCapitals ["definitionURL"])

/-- A tag without the qualifiers of its attributes. -/
def Tag.unqualified (tag : Tag) : Tag :=
  tag.renameAttrs fun n => (qualifiedNames.lookup n).getD n

end Reactive.Markup
