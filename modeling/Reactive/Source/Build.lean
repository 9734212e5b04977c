/-
  Components from sources.
-/
import Reactive.Markup.Parse
import Reactive.Source.Block
import Reactive.Source.Template

namespace Reactive

open Source

/-- The script of a source: at most one block, and free of faults. -/
def scriptOf (source : List Char) : Except CompileError (Option ScriptBlock) := do
  match blocks "script" source with
  | [] => return none
  | [b] =>
    let raw := Text.trim b.body
    match Script.soundModule raw with
    | .error message => throw (.scriptSyntax message)
    | .ok _ => return some ⟨String.ofList raw, b.attributeFields⟩
  | bs => throw (.multipleScriptBlocks bs.length)

/-- The template of a source. -/
def templateOf (source : List Char) : Except CompileError Template :=
  let (text, regions) := normalize (markup source)
  buildTemplate regions (Markup.parseDocument text)

/-- The component that a source describes. -/
def build (source filePath : String) : Except CompileError Component := do
  let cs := source.toList
  let script ← scriptOf cs
  let template ← templateOf cs
  return ⟨filePath, template, script⟩

end Reactive
