import Listwise.Text.Quoted

/-!
# Tokens

The words and marks of a statement.  A `Lexeme` is a token with the line it stands on;
`Token.describe` names a token in messages.
-/

namespace Listwise

/-- A word, a number, a text or a mark of a statement. -/
inductive Token where
  | number (text : String)
  | quoted (text : String)
  | word (name : String)
  | showWord
  | inWord
  | dotDot
  | plus
  | minus
  | star
  | slash
  | caret
  | leftParen
  | rightParen
  | leftBracket
  | rightBracket
  | comma
  | pipe
  | equals
  | equalEqual
  | lessEqual
  | greaterEqual
  | less
  | greater
  deriving DecidableEq, Repr, Inhabited

/-- A token and its line. -/
structure Lexeme where
  token : Token
  line : Nat
  deriving DecidableEq, Repr, Inhabited

/-- The name of a token in a message. -/
def Token.describe : Token → String
  | .number text => "Number(" ++ Text.quote text ++ ")"
  | .quoted text => "Str(" ++ Text.quote text ++ ")"
  | .word name => "Identifier(" ++ Text.quote name ++ ")"
  | .showWord => "Show"
  | .inWord => "In"
  | .dotDot => "DotDot"
  | .plus => "Plus"
  | .minus => "Minus"
  | .star => "Star"
  | .slash => "Slash"
  | .caret => "Caret"
  | .leftParen => "LParen"
  | .rightParen => "RParen"
  | .leftBracket => "LBracket"
  | .rightBracket => "RBracket"
  | .comma => "Comma"
  | .pipe => "Pipe"
  | .equals => "Equals"
  | .equalEqual => "EqualEqual"
  | .lessEqual => "LessEqual"
  | .greaterEqual => "GreaterEqual"
  | .less => "Less"
  | .greater => "Greater"

end Listwise
