/-
  Running the command line.

  A run asks the system for four things: to read a file, to write one, to print, and to print an
  error. The same run is carried out by the real system and by a world that is data.
-/
import Reactive.CommandLine.Arguments
import Reactive.CommandLine.Files
import Reactive.Component.Codec
import Reactive.Compile
import Reactive.Facts.Codec
import Reactive.Json.Writer

namespace Reactive.CommandLine

/-! ## What is delivered -/

/-- What an invocation delivers. -/
inductive Delivery where
  | print (text : String)
  | save (path text : String)
deriving DecidableEq, Repr, Inhabited

/-- The options that an invocation compiles with. -/
def Invocation.options (i : Invocation) : Options := ⟨i.input, i.name, i.policy⟩

/-- What an invocation delivers for the text of its input. -/
def Invocation.deliver (i : Invocation) (source : String) : Except CompileError Delivery := do
  match i.request with
  | .showComponent => return .print ((← build source i.input).toJson.pretty ++ "\n")
  | .showFacts => return .print ((analyze (← build source i.input)).toJson.pretty ++ "\n")
  | .compile =>
    let result ← compile source i.options
    return if i.toStdout then .print result.code else .save i.output result.code

/-- The line about an error in a file. -/
def errorLine (file : String) (e : CompileError) : String :=
  file ++ ": [" ++ e.code ++ "] " ++ e.message ++ "\n"

/-- The line about a file that cannot be read. -/
def readFailure (file reason : String) : String :=
  "failed to read " ++ file ++ ": " ++ reason ++ "\n"

/-- The line about a file that cannot be written. -/
def writeFailure (file reason : String) : String :=
  "failed to write " ++ file ++ ": " ++ reason ++ "\n"

/-- The line about arguments that cannot be used. -/
def usageLine : String := "error: invalid arguments\n\nFor more information, try '--help'.\n"

/-! ## Runs on a system -/

/-- What a run asks the system for. A file that cannot be read or written gives the reason. -/
structure System (m : Type → Type) where
  readFile : String → m (Except String String)
  writeFile : String → String → m (Except String Unit)
  print : String → m Unit
  printError : String → m Unit

section

variable {m : Type → Type} [Monad m]

/-- Prints an error and ends with a status. -/
def System.finish (sys : System m) (status : Nat) (message : String) : m Nat := do
  sys.printError message
  return status

/-- Carries an invocation out; the result is its status. -/
def Invocation.execute (sys : System m) (i : Invocation) : m Nat := do
  match ← sys.readFile i.input with
  | .error reason => sys.finish 1 (readFailure i.input reason)
  | .ok source =>
    match i.deliver source with
    | .error e => sys.finish 1 (errorLine i.input e)
    | .ok (.print text) =>
      sys.print text
      return 0
    | .ok (.save path text) =>
      match ← sys.writeFile path text with
      | .error reason => sys.finish 1 (writeFailure path reason)
      | .ok () => return 0

/-- The program, given its arguments. -/
def program (sys : System m) (args : List String) : m Nat := do
  match Invocation.ofArguments args with
  | .error .usage => sys.finish 2 usageLine
  | .error .help =>
    sys.print helpText
    return 0
  | .ok i => i.execute sys

end

/-! ## Runs on a disk -/

/-- A disk, and what has been printed. -/
structure World where
  disk : Disk
  stdout : String
  stderr : String
deriving Inhabited

/-- Stores a text at a place that has been opened, as far as there is room. -/
def World.store (w : World) (place : Place) (text : String) : Except FileFault Unit × World :=
  (if w.disk.fits place text then .ok () else .error .full,
    { w with disk := w.disk.put place (w.disk.stored place text) })

/-- Writes a text to what a path leads to. -/
def World.writeFile (w : World) (path text : String) : Except FileFault Unit × World :=
  match w.disk.openFile path with
  | .error fault => (.error fault, w)
  | .ok place =>
    match w.disk.entryAt? place with
    | some .output => (.ok (), { w with stdout := w.stdout ++ text })
    | some .sink => (.ok (), w)
    | _ => w.store place text

/-- The system of a disk. -/
def diskSystem : System (StateM World) where
  readFile path := return ((← get).disk.readFile path).mapError FileFault.message
  writeFile path text := do
    let (result, w) := (← get).writeFile path text
    set w
    return result.mapError FileFault.message
  print text := modify fun w => { w with stdout := w.stdout ++ text }
  printError text := modify fun w => { w with stderr := w.stderr ++ text }

/-- How a run ends. -/
structure Outcome where
  status : Nat
  stdout : String
  stderr : String
  disk : Disk
deriving Inhabited

/-- The run of a reader of the world on a disk, before anything has been printed. -/
def outcome (run : StateM World Nat) (d : Disk) : Outcome :=
  let (status, w) := run.run ⟨d, "", ""⟩
  ⟨status, w.stdout, w.stderr, w.disk⟩

/-- The program on a disk. -/
def runOn (args : List String) (d : Disk) : Outcome := outcome (program diskSystem args) d

/-! ## Runs in a directory -/

/-- How a run in a directory ends. -/
structure Result where
  status : Nat
  stdout : String
  stderr : String
  files : Files
deriving Repr, Inhabited

/-- The program in a directory of files. -/
def run (args : List String) (files : Files) : Result :=
  let o := runOn args (.ofFiles files)
  ⟨o.status, o.stdout, o.stderr, o.disk.files⟩

end Reactive.CommandLine
