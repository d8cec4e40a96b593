import RegexAutomaton.Report

/-!
The command line: prints the forms of an expression and its transition table.
-/

def main (arguments : List String) : IO UInt32 := do
  let report := RegexAutomaton.Report.ofArguments arguments
  IO.print report.out
  IO.eprint report.err
  return report.code
