/-
  Arguments of the command line.

  Options and switches start with dashes and stand anywhere; everything behind `--` is a
  path. Each option and switch is given at most once, and the value of an option does not
  start with a dash unless it is attached.
-/
import Reactive.Options

namespace Reactive.CommandLine

/-- What is asked for. -/
inductive Request where
  | compile | showComponent | showFacts
deriving DecidableEq, Repr, Inhabited

/-- What the arguments ask for. -/
structure Invocation where
  input : String
  request : Request
  output : String
  toStdout : Bool
  name : Option String
  policy : NotifyPolicy
  trace : Bool
deriving DecidableEq, Repr, Inhabited

/-- Arguments read so far. -/
structure Given where
  input : Option String := none
  ast : Bool := false
  semantic : Bool := false
  output : Option String := none
  toStdout : Bool := false
  name : Option String := none
  policy : Option NotifyPolicy := none
  trace : Bool := false
deriving Repr, Inhabited

/-- Why arguments lead to no invocation. -/
inductive Refusal where
  | usage
  | help
deriving DecidableEq, Repr, Inhabited

/-- Sets a switch, once. -/
def Given.switch (g : Given) (key : String) : Except Refusal Given :=
  match key with
  | "ast" => if g.ast then .error .usage else .ok { g with ast := true }
  | "semantic" => if g.semantic then .error .usage else .ok { g with semantic := true }
  | "stdout" => if g.toStdout then .error .usage else .ok { g with toStdout := true }
  | "trace" => if g.trace then .error .usage else .ok { g with trace := true }
  | "help" => .error .help
  | _ => .error .usage

/-- The option takes a value. -/
def takesValue (key : String) : Bool := key == "output" || key == "name" || key == "policy"

/-- Sets an option, once. A path is not empty. -/
def Given.option (g : Given) (key value : String) : Except Refusal Given :=
  match key with
  | "output" =>
    if g.output.isSome || value.isEmpty then .error .usage else .ok { g with output := some value }
  | "name" => if g.name.isSome then .error .usage else .ok { g with name := some value }
  | "policy" =>
    match g.policy, NotifyPolicy.ofKey? value with
    | none, some p => .ok { g with policy := some p }
    | _, _ => .error .usage
  | _ => .error .usage

/-- Sets the input path, once. -/
def Given.path (g : Given) (value : String) : Except Refusal Given :=
  if g.input.isSome || value.isEmpty then .error .usage else .ok { g with input := some value }

/-- The argument is an option or a switch. -/
def looksLikeFlag (arg : String) : Bool :=
  match arg.toList with
  | '-' :: _ :: _ => true
  | _ => false

/-- A long option with its value behind an equals sign. -/
def splitValue (body : List Char) : String × Option String :=
  match body.dropWhile (· != '=') with
  | [] => (String.ofList body, none)
  | _ :: value => (String.ofList (body.takeWhile (· != '=')), some (String.ofList value))

/-- Reads arguments from left to right. -/
def readArguments (g : Given) : List String → Except Refusal Given
  | [] => .ok g
  | arg :: rest =>
    match arg.toList with
    | ['-', '-'] => rest.foldlM Given.path g
    | '-' :: '-' :: body =>
      match splitValue body with
      | (key, some value) => do readArguments (← g.option key value) rest
      | (key, none) =>
        if takesValue key then
          match rest with
          | value :: rest =>
            if looksLikeFlag value then .error .usage
            else do readArguments (← g.option key value) rest
          | [] => .error .usage
        else do readArguments (← g.switch key) rest
    | ['-', 'o'] =>
      match rest with
      | value :: rest =>
        if looksLikeFlag value then .error .usage
        else do readArguments (← g.option "output" value) rest
      | [] => .error .usage
    | '-' :: 'o' :: '=' :: value => do
      readArguments (← g.option "output" (String.ofList value)) rest
    | '-' :: 'o' :: value => do readArguments (← g.option "output" (String.ofList value)) rest
    | '-' :: 'h' :: _ => .error .help
    | '-' :: _ :: _ => .error .usage
    | _ => do readArguments (← g.path arg) rest

/-- Where the program goes if nothing else is said. -/
def defaultOutput : String := "a.js"

/-- The invocation that arguments stand for. -/
def Invocation.ofArguments (args : List String) : Except Refusal Invocation := do
  let g ← readArguments {} args
  match g.input with
  | none => throw .usage
  | some input =>
    if g.ast && g.semantic then throw .usage
    return {
      input := input
      request := if g.ast then .showComponent else if g.semantic then .showFacts else .compile
      output := g.output.getD defaultOutput
      toStdout := g.toStdout
      name := g.name
      policy := g.policy.getD .reactive
      trace := g.trace }

/-- The lines that the switch for help prints. -/
def helpLines : List String := [
  "Compile a single-file reactive component",
  "",
  "Usage: minisvelte [OPTIONS] <INPUT>",
  "",
  "Arguments:",
  "  <INPUT>  Component source file",
  "",
  "Options:",
  "      --ast              Print the structured AST as JSON instead of compiling",
  "      --semantic         Print the semantic facts as JSON instead of compiling",
  "  -o, --output <OUTPUT>  Where to write the generated program [default: a.js]",
  "      --stdout           Print the generated program instead of writing it",
  "      --name <NAME>      Name of the emitted component function",
  "      --policy <POLICY>  Which mutations notify `refresh` [default: reactive] "
    ++ "[possible values: reactive, referred]",
  "      --trace            Log compiler phases to stderr. `RUST_LOG` overrides the level",
  "  -h, --help             Print help"]

/-- What the switch for help prints. -/
def helpText : String := String.join (helpLines.map (· ++ "\n"))

end Reactive.CommandLine
