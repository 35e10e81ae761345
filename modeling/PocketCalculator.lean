import PocketCalculator.Text.Basic
import PocketCalculator.Text.WordCharacter
import PocketCalculator.Text.Lexeme
import PocketCalculator.Number.Magnitude
import PocketCalculator.Number.Decimal
import PocketCalculator.Number.Numeral
import PocketCalculator.Number.Display
import PocketCalculator.Error
import PocketCalculator.Function
import PocketCalculator.Elementary
import PocketCalculator.Factorial
import PocketCalculator.Token.Basic
import PocketCalculator.Token.Reader
import PocketCalculator.Postfix
import PocketCalculator.Evaluation
import PocketCalculator.Expression
import PocketCalculator.Notation.Root
import PocketCalculator.Notation.Product
import PocketCalculator.Notation.FactorialSign
import PocketCalculator.Notation.Qualified
import PocketCalculator.Notation.Canonical
import PocketCalculator.Engine
import PocketCalculator.Calculator
import PocketCalculator.Window.Field
import PocketCalculator.Window.Layout
import PocketCalculator.Window.Frame
import PocketCalculator.Proofs.Grammar
import PocketCalculator.Proofs.Parsing
import PocketCalculator.Proofs.StackEvaluation
import PocketCalculator.Proofs.Continuations
import PocketCalculator.Proofs.Cutting
import PocketCalculator.Proofs.Settled
import PocketCalculator.Proofs.Roots
import PocketCalculator.Proofs.Idempotence
import PocketCalculator.Proofs.Typed.Notation
import PocketCalculator.Proofs.Typed.Pieces
import PocketCalculator.Proofs.Typed.Rewriting
import PocketCalculator.Proofs.Typed.Derivation
import PocketCalculator.Proofs.Typed.Meaning
import PocketCalculator.Proofs.Results
import PocketCalculator.Proofs.Legible
import PocketCalculator.Proofs.Accepted
import PocketCalculator.Proofs.Vocabulary
import PocketCalculator.Proofs.Runs.Engine
import PocketCalculator.Proofs.Runs.Calculator
import PocketCalculator.Proofs.Runs.Window
import PocketCalculator.Proofs.Runs.Gestures
import PocketCalculator.Proofs.Runs.Effects
import PocketCalculator.Proofs.Runs.Preview
import PocketCalculator.Proofs.Runs.Triggers
import PocketCalculator.Proofs.Runs.Cursor
import PocketCalculator.Proofs.Runs.Keystrokes
import PocketCalculator.Proofs.Joints
import PocketCalculator.Proofs.Locality
import PocketCalculator.Proofs.Reading
import PocketCalculator.Proofs.Trimming
import PocketCalculator.Proofs.Roots.Nesting
import PocketCalculator.Proofs.Roots.Expansion
import PocketCalculator.Proofs.Roots.Bytes
import PocketCalculator.Proofs.Roots.InPlace
import PocketCalculator.Proofs.Number.Shown
import PocketCalculator.Proofs.Runs.Replay
import PocketCalculator.Proofs.Number.Rounding
import PocketCalculator.Proofs.Number.Shortest
import PocketCalculator.Proofs.Number.Double
import PocketCalculator.Proofs.Number.Sums
import PocketCalculator.Proofs.Number.Zeros
import PocketCalculator.Proofs.Number.Numerals
import PocketCalculator.Proofs.Rereading
import PocketCalculator.Proofs.Number.ReadBack
import PocketCalculator.Proofs.FactorialCalls
import PocketCalculator.Proofs.Taking
import PocketCalculator.Proofs.MinusSigns
import PocketCalculator.Proofs.Printing
import PocketCalculator.Proofs.Runs.Reuse
import PocketCalculator.Proofs.Runs.Memory
import PocketCalculator.Proofs.Runs.MemoryKeys
import PocketCalculator.Proofs.Number.Products
import PocketCalculator.Proofs.Number.Order
import PocketCalculator.Proofs.Number.Undefined
import PocketCalculator.Proofs.Undefined
import PocketCalculator.Proofs.Number.Reals
import PocketCalculator.Proofs.Number.RealFunctions
import PocketCalculator.Proofs.Factorial.Series
import PocketCalculator.Proofs.Factorial.Factors
import PocketCalculator.Proofs.Factorial.Overflow
