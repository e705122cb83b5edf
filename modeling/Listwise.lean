import Listwise.Decimal.Basic
import Listwise.Decimal.Rounding
import Listwise.Decimal.Arithmetic
import Listwise.Decimal.Text
import Listwise.Decimal.Literal
import Listwise.Decimal.Binary64
import Listwise.Text.Blank
import Listwise.Text.Shapeless
import Listwise.Text.Quoted
import Listwise.Text.Lines
import Listwise.Token.Basic
import Listwise.Token.Lexer
import Listwise.Error
import Listwise.Expr.Basic
import Listwise.Expr.Eval
import Listwise.Written
import Listwise.Grammar.Basic
import Listwise.Grammar.Arithmetic
import Listwise.Grammar.Statement
import Listwise.NamedList
import Listwise.Store
import Listwise.Range
import Listwise.Predicate
import Listwise.Comprehension
import Listwise.Statement
import Listwise.Session
import Listwise.Environment
import Listwise.CommandLine
import Listwise.Main
import Listwise.Proofs.NestedLoops
import Listwise.Proofs.ArithmeticGrammar
import Listwise.Proofs.Precedence
import Listwise.Proofs.ListGrammar
import Listwise.Proofs.StatementGrammar
import Listwise.Proofs.DecimalText
import Listwise.Proofs.Lexing
import Listwise.Proofs.Replay
import Listwise.Proofs.DecimalValue
import Listwise.Proofs.DecimalArithmetic
import Listwise.Proofs.DecimalRounding
import Listwise.Proofs.ExactEvaluation
import Listwise.Proofs.LongDivision
import Listwise.Proofs.Quotients
import Listwise.Proofs.InPlace
import Listwise.Proofs.TokenShape
import Listwise.Proofs.Spelling
import Listwise.Proofs.Results
import Listwise.Proofs.StoreHistory
import Listwise.Proofs.TransformText
import Listwise.Proofs.SameValues
import Listwise.Proofs.Footprint
import Listwise.Proofs.Combinations
import Listwise.Proofs.Filtering
import Listwise.Proofs.Substitution
import Listwise.Proofs.Printing
import Listwise.Proofs.Renumbering
import Listwise.Proofs.ErrorLines
import Listwise.Proofs.ScriptErrors
import Listwise.Proofs.StartingLine
import Listwise.Proofs.IdleLines
import Listwise.Proofs.Repetition
import Listwise.Proofs.RangeSteps
import Listwise.Proofs.WiderLimits
import Listwise.Proofs.Faults
import Listwise.Proofs.Numerals
import Listwise.Proofs.PlainNumerals
import Listwise.Proofs.ShortestText
