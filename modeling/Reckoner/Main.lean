import Reckoner.CommandLine

/-!
# The program

Evaluates its arguments as one expression; see `Reckoner.CommandLine`.
-/
open Reckoner

def main (arguments : List String) : IO UInt32 := do
  let result := CommandLine.run arguments
  IO.print result.output
  if result = .misused then IO.eprintln CommandLine.usage
  return result.code.toUInt32
