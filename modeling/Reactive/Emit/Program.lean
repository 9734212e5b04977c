/-
  Compiling an analysed component.

  Reactive declarations run once after the nodes have been built, so that their
  notifications find every node in place, and again whenever a name that they read has
  changed.
-/
import Reactive.Emit.Listing
import Reactive.Emit.Markup

namespace Reactive.Emit

/-- A compiled component: its variables, its script and the steps of its lifecycle. -/
structure Compiled where
  name : Option String
  declarations : List String
  script : String
  construct : List Step
  refresh : List Reaction
  teardown : List Step
deriving Inhabited

/-- The declarations that run again. -/
def reruns (f : Facts) : List Reaction :=
  (f.responsive.filter fun d => !d.dependencies.isEmpty).map Reaction.rerun

/-- Compiles a component with its facts. -/
def generate (c : Component) (f : Facts) (o : Options) : Compiled :=
  let e := markup f c.template
  { name := o.componentName
    declarations := e.handles ++ f.hoisted
    script := notifyScript c.scriptSource f o.policy
    construct := e.build ++ f.responsive.map Step.run
    refresh := e.reactions ++ reruns f
    teardown := e.remove.reverse }

/-- The parts of a compiled component as text. -/
def Compiled.listing (p : Compiled) : Listing :=
  { name := p.name
    declarations := p.declarations
    script := p.script
    construct := p.construct.map Step.write
    refresh := p.refresh.map Reaction.write
    teardown := p.teardown.map Step.write }

end Reactive.Emit
