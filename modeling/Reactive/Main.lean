/-
  The program.
-/
import Reactive.CommandLine.Run

open Reactive.CommandLine

/-- The files and streams of the machine. -/
def machine : System IO where
  readFile path := return (← (IO.FS.readFile path).toBaseIO).mapError toString
  writeFile path text := return (← (IO.FS.writeFile path text).toBaseIO).mapError toString
  print := IO.print
  printError text := do (← IO.getStderr).putStr text

def main (args : List String) : IO UInt32 := return (← program machine args).toUInt32
