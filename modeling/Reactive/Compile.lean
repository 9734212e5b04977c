/-
  Compiling a source.
-/
import Reactive.Emit.Program
import Reactive.Source.Build

namespace Reactive

/-- What compiling gives. -/
structure Compilation where
  code : String
  component : Component
  facts : Facts
  listing : Emit.Listing

/-- Compiles a component that has been read. -/
def compileComponent (c : Component) (o : Options) : Compilation :=
  let facts := analyze c
  let listing := (Emit.generate c facts o).listing
  ⟨listing.render, c, facts, listing⟩

/-- Compiles a source. -/
def compile (source : String) (o : Options) : Except CompileError Compilation := do
  let c ← build source o.filePath
  return compileComponent c o

end Reactive
