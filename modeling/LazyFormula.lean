import LazyFormula.Algebra.Reader
import LazyFormula.Algebra.Token
import LazyFormula.Binary64
import LazyFormula.Bindings
import LazyFormula.CommandLine
import LazyFormula.Decimal
import LazyFormula.Decimal.Layout
import LazyFormula.Decimal.Shortest
import LazyFormula.Description
import LazyFormula.EvalError
import LazyFormula.Evaluation
import LazyFormula.Event
import LazyFormula.Expr
import LazyFormula.Field
import LazyFormula.Form
import LazyFormula.Grammar
import LazyFormula.Json
import LazyFormula.Main
import LazyFormula.Number
import LazyFormula.Primitive
import LazyFormula.Primitive.Run
import LazyFormula.Proofs.Activations
import LazyFormula.Proofs.AlgebraGrammar
import LazyFormula.Proofs.Apart
import LazyFormula.Proofs.Assignment
import LazyFormula.Proofs.Atlas
import LazyFormula.Proofs.Bounds
import LazyFormula.Proofs.Captures
import LazyFormula.Proofs.Comparison
import LazyFormula.Proofs.Computations
import LazyFormula.Proofs.Copies
import LazyFormula.Proofs.Cycles
import LazyFormula.Proofs.Decimals
import LazyFormula.Proofs.Depth
import LazyFormula.Proofs.Evolution
import LazyFormula.Proofs.FloatBits
import LazyFormula.Proofs.FloatOrder
import LazyFormula.Proofs.Formed
import LazyFormula.Proofs.Histories
import LazyFormula.Proofs.Hosts
import LazyFormula.Proofs.Integers
import LazyFormula.Proofs.Isolation
import LazyFormula.Proofs.Lifetimes
import LazyFormula.Proofs.ListGrammar
import LazyFormula.Proofs.ListNotation
import LazyFormula.Proofs.Matching
import LazyFormula.Proofs.Meaning
import LazyFormula.Proofs.Memoryless
import LazyFormula.Proofs.Mirror
import LazyFormula.Proofs.Mirroring
import LazyFormula.Proofs.Moves
import LazyFormula.Proofs.Notations
import LazyFormula.Proofs.Numbering
import LazyFormula.Proofs.Numerals
import LazyFormula.Proofs.Offenders
import LazyFormula.Proofs.Owners
import LazyFormula.Proofs.Padding
import LazyFormula.Proofs.Persistence
import LazyFormula.Proofs.Procedures
import LazyFormula.Proofs.Reach
import LazyFormula.Proofs.Recapture
import LazyFormula.Proofs.Regions
import LazyFormula.Proofs.Renaming
import LazyFormula.Proofs.Replays
import LazyFormula.Proofs.Reprinting
import LazyFormula.Proofs.Resolving
import LazyFormula.Proofs.Resting
import LazyFormula.Proofs.Roots
import LazyFormula.Proofs.Rounding
import LazyFormula.Proofs.Rounds
import LazyFormula.Proofs.Scopes
import LazyFormula.Proofs.Settling
import LazyFormula.Proofs.SheetAnswers
import LazyFormula.Proofs.SheetRuns
import LazyFormula.Proofs.Sheets
import LazyFormula.Proofs.Simulation
import LazyFormula.Proofs.Sparing
import LazyFormula.Proofs.Spelling
import LazyFormula.Proofs.Staleness
import LazyFormula.Proofs.Targets
import LazyFormula.Proofs.TwinChanges
import LazyFormula.Proofs.TwinEvaluation
import LazyFormula.Proofs.TwinForcing
import LazyFormula.Proofs.TwinLookups
import LazyFormula.Proofs.TwinRuns
import LazyFormula.Proofs.TwinSkips
import LazyFormula.Proofs.Twinning
import LazyFormula.Proofs.Twins
import LazyFormula.Proofs.Walks
import LazyFormula.Proofs.Words
import LazyFormula.Proofs.Writes
import LazyFormula.Proofs.Yields
import LazyFormula.Root
import LazyFormula.SExpr.Reader
import LazyFormula.Session
import LazyFormula.Store
import LazyFormula.Store.Lifetime
import LazyFormula.Store.Write
import LazyFormula.SyntaxError
import LazyFormula.Text.Blank
import LazyFormula.Text.Escaped
import LazyFormula.Text.Quoted
import LazyFormula.Text.Ranges
import LazyFormula.Text.Word
import LazyFormula.Value
