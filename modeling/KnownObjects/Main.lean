import KnownObjects.CommandLine.Run

/-!
# The program

Prints what a run of the program leaves: its log and complaint on the error stream, its output on the standard one.
-/

def main (arguments : List String) : IO UInt32 := do
  let report := KnownObjects.CommandLine.run arguments
  for record in report.log do
    IO.eprintln record.text
  unless report.complaint.isEmpty do
    IO.eprintln report.complaint
  IO.print report.output
  return report.exitCode
