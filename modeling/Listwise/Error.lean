import Listwise.Decimal.Text
import Listwise.Token.Basic

/-!
# Errors

An `Error` is a cause and the line it is reported on.  The causes fall into those of form (the text
is no statement), of meaning (the statement cannot be carried out) and of arithmetic.
`Error.message` words them.
-/

namespace Listwise

/-- What a statement should have gone on with. -/
inductive Expected where
  | expression
  | listElement
  | identifier
  | number
  | token (t : Token)
  | commaOr (closing : Token)
  | pipeOrBracket
  deriving DecidableEq, Repr

/-- Why an operation has no result. -/
inductive ArithmeticFault where
  | divisionByZero
  | overflow
  | undefinedPower
  deriving DecidableEq, Repr

/-- Why a statement was refused. -/
inductive Cause where
  | unexpectedToken (expected : Expected) (found : Token)
  | unexpectedEnd
  | trailingToken (found : Token)
  | unrecognized (text : String)
  | undefinedComparison (operand : String)
  | missingTransform (result : String)
  | malformedNumber (text : String)
  | unknownList (name : String)
  | nonNumericElement (list element : String)
  | duplicateVariable (name : String)
  | rangeOutOfBounds (bound : String) (lower upper : Decimal)
  | arithmetic (fault : ArithmeticFault) (expression : String)
  deriving DecidableEq, Repr

/-- A cause and the line it is reported on. -/
structure Error where
  cause : Cause
  line : Nat
  deriving DecidableEq, Repr

/-- What was expected, in words. -/
def Expected.describe : Expected → String
  | .expression => "expression"
  | .listElement => "list element"
  | .identifier => "identifier"
  | .number => "number"
  | .token t => t.describe
  | .commaOr closing => "',' or " ++ closing.describe
  | .pipeOrBracket => "'|' or ']'"

/-- The cause in words. -/
def Cause.message : Cause → String
  | .unexpectedToken expected found =>
    "Unexpected token: Expected " ++ expected.describe ++ ", found " ++ found.describe ++ "."
  | .unexpectedEnd => "Unexpected end of input."
  | .trailingToken found => "Extra tokens after statement: " ++ found.describe ++ "."
  | .unrecognized text => "Unrecognized input '" ++ text ++ "'."
  | .undefinedComparison operand =>
    "Predicate on '" ++ operand ++ "' has no comparison operator."
  | .missingTransform result =>
    "Comprehension '" ++ result ++ "' is missing its transform expression."
  | .malformedNumber text => "Malformed numeric literal '" ++ text ++ "'."
  | .unknownList name => "Unknown list '" ++ name ++ "'."
  | .nonNumericElement list element =>
    "Element '" ++ element ++ "' of list '" ++ list ++ "' is not a number."
  | .duplicateVariable name => "Variable '" ++ name ++ "' is bound more than once."
  | .rangeOutOfBounds bound lower upper =>
    "Range bound " ++ bound ++ " lies outside the limits " ++ lower.toText ++ ".." ++
      upper.toText ++ "."
  | .arithmetic .divisionByZero expression => "Division by zero in '" ++ expression ++ "'."
  | .arithmetic .overflow expression =>
    "Numeric overflow while computing '" ++ expression ++ "'."
  | .arithmetic .undefinedPower expression => "'" ++ expression ++ "' has no real result."

/-- The error in words, with its line. -/
def Error.message (e : Error) : String :=
  "Error on line " ++ toString e.line ++ ": " ++ e.cause.message

end Listwise
