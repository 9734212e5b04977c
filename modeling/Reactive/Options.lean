/-
  Options of a compilation.
-/
import Reactive.Json.Value

namespace Reactive

/-- Which writes to variables are announced. -/
inductive NotifyPolicy where
  /-- Writes to reactive names. -/
  | reactive
  /-- Writes to names that the template refers to. -/
  | referred
deriving DecidableEq, Repr, Inhabited

namespace NotifyPolicy

/-- The name of a policy. -/
def key : NotifyPolicy → String
  | .reactive => "reactive"
  | .referred => "referred"

/-- The policy with a name. -/
def ofKey? : String → Option NotifyPolicy
  | "reactive" => some .reactive
  | "referred" => some .referred
  | _ => none

/-- Reading the name of a policy gives it back. -/
@[simp] theorem ofKey?_key (p : NotifyPolicy) : ofKey? p.key = some p := by cases p <;> rfl

/-- A policy given as JSON: its name, or an object with `null` under its name. -/
def ofJson? : Json → Option NotifyPolicy
  | .string name => ofKey? name
  | .object [(name, .null)] => ofKey? name
  | _ => none

end NotifyPolicy

/-- Options of a compilation. -/
structure Options where
  filePath : String := ""
  /-- The name of the compiled function; it has none if this is missing. -/
  componentName : Option String := none
  policy : NotifyPolicy := .reactive
deriving DecidableEq, Repr, Inhabited

namespace Options

/-- Options as JSON. -/
def toJson (o : Options) : Json :=
  .object [("filePath", .string o.filePath),
    ("componentName", .optional (o.componentName.map .string)),
    ("rewritePolicy", .string o.policy.key)]

/-- A name, which may be `null`. -/
def nameOfJson? : Json → Option (Option String)
  | .null => some none
  | v => v.asString?.map some

/-- A field that may be missing. -/
def orDefault {α : Type} (read : Json → Option α) (missing : α) : Option Json → Option α
  | none => some missing
  | some v => read v

/-- Options from fields that may be missing. -/
def ofFields? (filePath componentName policy : Option Json) : Option Options := do
  return ⟨← orDefault Json.asString? "" filePath, ← orDefault nameOfJson? none componentName,
    ← orDefault NotifyPolicy.ofJson? .reactive policy⟩

/-- Options given as an object, or as a list that may end early. -/
def ofJson? : Json → Option Options
  | .object fields => ofFields? (Json.lookup "filePath" fields) (Json.lookup "componentName" fields)
      (Json.lookup "rewritePolicy" fields)
  | .array items =>
    if items.length ≤ 3 then ofFields? items[0]? items[1]? items[2]? else none
  | _ => none

end Options

end Reactive
