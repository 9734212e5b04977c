/-
  Documents and what steps do to them.

  A document is a store of numbered nodes. A node knows the node above it, its children in
  order, its attributes and a bag of listeners. Variables hold nodes; a step finds the nodes it
  works on through its variables. A step that a document refuses has no result: taking a node
  away from a node that is not above it, taking away a listener that is not there, putting a
  node below itself, and using a variable that holds nothing.
-/
import Reactive.Emit.Step
import Mathlib.Logic.Function.Basic

namespace Reactive.Document

open Emit

/-! ## Nodes -/

/-- What a node is: an element, or a text that is given or computed. -/
inductive Content where
  | element (tag : String)
  | text (value : Operand)
deriving DecidableEq, Repr, Inhabited

/-- A node of a document. -/
structure DomNode where
  content : Content
  parent : Option Nat
  children : List Nat
  attributes : List (String × Operand)
  /-- Events with their handlers, latest first; the same pair may be there several times. -/
  listeners : List (String × String)
deriving DecidableEq, Repr, Inhabited

namespace DomNode

/-- A node as it is created. -/
def fresh (content : Content) : DomNode := ⟨content, none, [], [], []⟩

/-- The node with other children. -/
def withChildren (n : DomNode) (children : List Nat) : DomNode := { n with children := children }

/-- The node below nothing, with nothing below it and without listeners. -/
def bare (n : DomNode) : DomNode := { n with parent := none, children := [], listeners := [] }

/-- The node with an attribute set. -/
def withAttribute (n : DomNode) (name : String) (value : Operand) : DomNode :=
  { n with attributes := n.attributes.filter (·.1 != name) ++ [(name, value)] }

end DomNode

/-! ## Documents -/

/-- A document: nodes by number, of which the first `size` exist, and variables. -/
structure Dom where
  size : Nat
  node : Nat → DomNode
  handle : String → Option Nat

namespace Dom

/-- Changes one node. -/
def modify (d : Dom) (i : Nat) (g : DomNode → DomNode) : Dom :=
  { d with node := Function.update d.node i (g (d.node i)) }

/-- Creates a node and puts it into a variable. -/
def create (d : Dom) (name : String) (content : Content) : Dom :=
  { size := d.size + 1
    node := Function.update d.node d.size (.fresh content)
    handle := Function.update d.handle name (some d.size) }

/-- A node and the nodes above it, from the inside out, up to a number of them. -/
def ancestors (d : Dom) : Nat → Nat → List Nat
  | 0, _ => []
  | k + 1, i => i :: match (d.node i).parent with
    | none => []
    | some p => d.ancestors k p

/-- Takes a node away from the node above it. -/
def detach (d : Dom) (i : Nat) : Dom :=
  match (d.node i).parent with
  | none => d
  | some p => (d.modify p fun n => n.withChildren (n.children.erase i)).modify i
      fun n => { n with parent := none }

/-- Puts a node below another one, behind the children that are there. -/
def attach (d : Dom) (p i : Nat) : Dom :=
  (d.modify p fun n => n.withChildren (n.children ++ [i])).modify i
    fun n => { n with parent := some p }

/-- Moves a node below another one, unless the other one is that node or below it. -/
def append (d : Dom) (p i : Nat) : Option Dom :=
  if i ∈ d.ancestors d.size p then none else some ((d.detach i).attach p i)

/-- Takes a node away from a node, which has to be the one above it. -/
def remove (d : Dom) (p i : Nat) : Option Dom :=
  if (d.node i).parent = some p then some (d.detach i) else none

/-- Takes a listener away, which has to be there. -/
def unlisten (d : Dom) (i : Nat) (listener : String × String) : Option Dom :=
  if listener ∈ (d.node i).listeners then
    some (d.modify i fun n => { n with listeners := n.listeners.erase listener })
  else none

/-- What a step does to a document. Reactive declarations are left aside. -/
def step (d : Dom) : Step → Option Dom
  | .createElement h tag => some (d.create h (.element tag))
  | .createText h value => some (d.create h (.text value))
  | .setAttribute h name value =>
    (d.handle h).map fun i => d.modify i fun n => n.withAttribute name value
  | .addListener h event handler =>
    (d.handle h).map fun i => d.modify i fun n =>
      { n with listeners := (event, handler) :: n.listeners }
  | .appendChild parent child =>
    (d.handle parent).bind fun p => (d.handle child).bind fun i => d.append p i
  | .removeListener h event handler => (d.handle h).bind fun i => d.unlisten i (event, handler)
  | .removeChild parent child =>
    (d.handle parent).bind fun p => (d.handle child).bind fun i => d.remove p i
  | .run _ => some d

/-- What steps do one after the other; nothing if one of them is refused. -/
def run : List Step → Dom → Option Dom
  | [], d => some d
  | s :: steps, d => (d.step s).bind (run steps)

/-- Every step meets a condition on the document that it finds. -/
def Along (ok : Dom → Step → Prop) : List Step → Dom → Prop
  | [], _ => True
  | s :: steps, d => ok d s ∧ ∀ d', d.step s = some d' → Along ok steps d'

/-- What is taken away is there, and a node is taken away from the node above it once nothing is
below it any more. -/
def Careful (d : Dom) : Step → Prop
  | .removeChild parent child => ∃ p i, d.handle parent = some p ∧ d.handle child = some i
      ∧ (d.node i).parent = some p ∧ i ∈ (d.node p).children ∧ (d.node i).children = []
  | .removeListener h event handler =>
    ∃ i, d.handle h = some i ∧ (event, handler) ∈ (d.node i).listeners
  | _ => True

/-! ## Small facts -/

section

variable (d : Dom) (i : Nat) (g : DomNode → DomNode)

@[simp] theorem size_modify : (d.modify i g).size = d.size := rfl

@[simp] theorem handle_modify : (d.modify i g).handle = d.handle := rfl

@[simp] theorem node_modify_self : (d.modify i g).node i = g (d.node i) :=
  Function.update_self ..

theorem node_modify_of_ne {j : Nat} (h : j ≠ i) : (d.modify i g).node j = d.node j :=
  Function.update_of_ne h ..

end

section

variable (d : Dom) (name : String) (content : Content)

@[simp] theorem size_create : (d.create name content).size = d.size + 1 := rfl

@[simp] theorem handle_create_self : (d.create name content).handle name = some d.size :=
  Function.update_self ..

theorem handle_create_of_ne {other : String} (h : other ≠ name) :
    (d.create name content).handle other = d.handle other :=
  Function.update_of_ne h ..

@[simp] theorem node_create_self : (d.create name content).node d.size = .fresh content :=
  Function.update_self ..

theorem node_create_of_ne {j : Nat} (h : j ≠ d.size) :
    (d.create name content).node j = d.node j :=
  Function.update_of_ne h ..

end

@[simp] theorem run_nil (d : Dom) : run [] d = some d := rfl

theorem run_cons {d d' : Dom} {s : Step} (h : d.step s = some d') (steps : List Step) :
    run (s :: steps) d = run steps d' := by
  rw [run, h]
  rfl

theorem run_append {d d' : Dom} {first : List Step} (h : run first d = some d')
    (second : List Step) : run (first ++ second) d = run second d' := by
  induction first generalizing d with
  | nil =>
    rw [run_nil, Option.some_inj] at h
    rw [List.nil_append, h]
  | cons s first ih =>
    obtain ⟨e, he, hrest⟩ := Option.bind_eq_some_iff.mp h
    rw [List.cons_append, run_cons he]
    exact ih hrest

theorem along_append {ok : Dom → Step → Prop} {d d' : Dom} {first second : List Step}
    (h : run first d = some d') (hfirst : Along ok first d) (hsecond : Along ok second d') :
    Along ok (first ++ second) d := by
  induction first generalizing d with
  | nil =>
    rw [run_nil, Option.some_inj] at h
    rwa [List.nil_append, h]
  | cons s first ih =>
    obtain ⟨e, he, hrest⟩ := Option.bind_eq_some_iff.mp h
    refine ⟨hfirst.1, fun e' he' => ?_⟩
    rw [he, Option.some_inj] at he'
    subst he'
    exact ih hrest (hfirst.2 e he)

/-- No number from a bound on is among the nodes above a node below the bound, if nodes below the
bound have only such nodes above them. -/
theorem lt_of_mem_ancestors {d : Dom} {bound : Nat}
    (h : ∀ i < bound, ∀ p, (d.node i).parent = some p → p < bound) {k i j : Nat} (hi : i < bound)
    (hj : j ∈ d.ancestors k i) : j < bound := by
  induction k generalizing i with
  | zero => exact absurd hj (by simp [ancestors])
  | succ k ih =>
    rw [ancestors] at hj
    rcases List.mem_cons.mp hj with rfl | hj
    · exact hi
    · cases hp : (d.node i).parent with
      | none => simp [hp] at hj
      | some p =>
        rw [hp] at hj
        exact ih (h i hi p hp) hj

end Dom

end Reactive.Document
