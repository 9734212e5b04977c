/-
  Components as JSON.

  A record is an object with its fields by name; a list of exactly its fields is accepted
  in its place. Fields that are not known are ignored, and every field is required except
  the script of a component.
-/
import Reactive.Component.Basic
import Reactive.Json.Value

namespace Reactive

/-! ## Encoding -/

def Expression.toJson (e : Expression) : Json :=
  .object [("id", .string e.id), ("code", .string e.code)]

def AttributeValue.toJson : AttributeValue → Json
  | .static value => .object [("kind", .string "static"), ("value", .string value)]
  | .dynamic e => .object [("kind", .string "dynamic"), ("value", e.toJson)]
  | .event name handler => .object [("kind", .string "event"),
      ("value", .object [("event", .string name), ("handler", handler.toJson)])]

def Attribute.toJson (a : Attribute) : Json :=
  .object [("name", .string a.name), ("value", a.value.toJson)]

def Node.toJson (n : Node) : Json :=
  n.fold
    (fun tag attributes children => .object [("type", .string "element"), ("tag", .string tag),
      ("attributes", .array (attributes.map Attribute.toJson)), ("children", .array children)])
    (fun value => .object [("type", .string "text"), ("value", .string value)])
    (fun e => .object [("type", .string "expression"), ("expression", e.toJson)])

def Template.toJson (t : Template) : Json :=
  .object [("nodes", .array (t.nodes.map Node.toJson)),
    ("expressions", .array (t.expressions.map Expression.toJson))]

def ScriptBlock.toJson (s : ScriptBlock) : Json :=
  .object [("raw", .string s.raw),
    ("attributes", .object (s.attributes.map fun a => (a.1, .string a.2)))]

def Component.toJson (c : Component) : Json :=
  .object [("filePath", .string c.filePath), ("template", c.template.toJson),
    ("script", .optional (c.script.map ScriptBlock.toJson))]

/-! ## Decoding -/

namespace Json

/-- The values of these fields, in this order, of an object or of a list of as many items. -/
def record? (keys : List String) : Json → Option (List Json)
  | .object fields => keys.mapM fun k => lookup k fields
  | .array items => if items.length = keys.length then some items else none
  | _ => none

/-- The tag of a tagged value and the rest of it. -/
def tagged? (key : String) : Json → Option (String × Json)
  | .object fields => do
    let tag ← (← lookup key fields).asString?
    return (tag, .object (fields.filter fun f => f.1 != key))
  | .array (tag :: items) => do return (← tag.asString?, .array items)
  | _ => none

end Json

def Expression.ofJson? (v : Json) : Option Expression := do
  match ← v.record? ["id", "code"] with
  | [id, code] => return ⟨← id.asString?, ← code.asString?⟩
  | _ => none

def AttributeValue.ofJson? (v : Json) : Option AttributeValue := do
  match ← v.record? ["kind", "value"] with
  | [kind, value] =>
    match ← kind.asString? with
    | "static" => return .static (← value.asString?)
    | "dynamic" => return .dynamic (← Expression.ofJson? value)
    | "event" =>
      match ← value.record? ["event", "handler"] with
      | [name, handler] => return .event (← name.asString?) (← Expression.ofJson? handler)
      | _ => none
    | _ => none
  | _ => none

def Attribute.ofJson? (v : Json) : Option Attribute := do
  match ← v.record? ["name", "value"] with
  | [name, value] => return ⟨← name.asString?, ← AttributeValue.ofJson? value⟩
  | _ => none

/-- A node, with `depth` levels of elements below it at most. -/
def Node.ofJsonWithin? : Nat → Json → Option Node
  | 0, _ => none
  | depth + 1, v => do
    let (tag, rest) ← v.tagged? "type"
    match tag with
    | "element" =>
      match ← rest.record? ["tag", "attributes", "children"] with
      | [tag, attributes, children] =>
        let tag ← tag.asString?
        let attributes ← (← attributes.asArray?).mapM Attribute.ofJson?
        let children ← (← children.asArray?).mapM (Node.ofJsonWithin? depth)
        return .element tag attributes children
      | _ => none
    | "text" =>
      match ← rest.record? ["value"] with
      | [value] => return .text (← value.asString?)
      | _ => none
    | "expression" =>
      match ← rest.record? ["expression"] with
      | [e] => return .expression (← Expression.ofJson? e)
      | _ => none
    | _ => none

/-- A node; it has no more levels than the value. -/
def Node.ofJson? (v : Json) : Option Node := Node.ofJsonWithin? v.depth v

def Template.ofJson? (v : Json) : Option Template := do
  match ← v.record? ["nodes", "expressions"] with
  | [nodes, expressions] =>
    return ⟨← (← nodes.asArray?).mapM Node.ofJson?,
      ← (← expressions.asArray?).mapM Expression.ofJson?⟩
  | _ => none

/-- The fields of an object of strings, sorted by name, the last value of a name winning. -/
def sortedFields (fields : List (String × String)) : List (String × String) :=
  let latest := fields.foldl (fun kept f => kept.filter (·.1 != f.1) ++ [f]) []
  latest.mergeSort fun a b => a.1 ≤ b.1

def ScriptBlock.ofJson? (v : Json) : Option ScriptBlock := do
  match ← v.record? ["raw", "attributes"] with
  | [raw, attributes] =>
    let fields ← (← attributes.asObject?).mapM fun f => do return (f.1, ← f.2.asString?)
    return ⟨← raw.asString?, sortedFields fields⟩
  | _ => none

/-- The script of a component, which may be missing or `null`. -/
def scriptField? : Option Json → Option (Option ScriptBlock)
  | none | some .null => some none
  | some v => (ScriptBlock.ofJson? v).map some

def Component.ofJson? (v : Json) : Option Component := do
  match v with
  | .object fields =>
    let filePath ← (← Json.lookup "filePath" fields).asString?
    let template ← Template.ofJson? (← Json.lookup "template" fields)
    let script ← scriptField? (Json.lookup "script" fields)
    return ⟨filePath, template, script⟩
  | .array [filePath, template, script] =>
    return ⟨← filePath.asString?, ← Template.ofJson? template, ← scriptField? (some script)⟩
  | _ => none

end Reactive
