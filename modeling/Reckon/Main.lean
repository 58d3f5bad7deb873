import Reckon.CommandLine.Report

/-!
# The program

Reads the arguments, and the standard input if they hold no expression, and prints the answer.
-/

open Reckon

def main (args : List String) : IO UInt32 := do
  let input ← if CommandLine.needsInput args then (← IO.getStdin).readToEnd else pure ""
  let seed ← IO.monoNanosNow
  let report := ((CommandLine.respond args input).run (mkStdGen seed)).1
  IO.print report.output
  for line in report.diagnostics do IO.eprintln line
  return report.exit.toUInt32
