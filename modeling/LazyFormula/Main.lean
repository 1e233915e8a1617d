import LazyFormula.CommandLine
/-!
# The command

Input is read only if the arguments hold no expression.
-/

def main (args : List String) : IO UInt32 := do
  let readsInput := (LazyFormula.CommandLine.read? args).any (·.expressions.isEmpty)
  let input ← if readsInput then (← IO.getStdin).readToEnd else pure ""
  let outcome := LazyFormula.CommandLine.run args input
  IO.print outcome.output
  IO.eprint outcome.errors
  return .ofNat outcome.code
