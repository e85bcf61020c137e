import Stylesheet.Command

/-!
# The program

Reads the file named by the arguments and prints what the command says
about it.
-/

open Stylesheet

/-- Run the command on the file it names. -/
def main (args : List String) : IO UInt32 := do
  match Command.settings? {} args with
  | some settings =>
    match settings.file with
    | some file =>
      let source ← IO.FS.readFile file
      let printout := Command.run settings source fun _ => 0
      IO.print printout.output
      IO.eprint printout.errors
      return printout.code.toUInt32
    | none =>
      IO.eprintln Command.usage
      return 2
  | none =>
    IO.eprintln Command.usage
    return 2
