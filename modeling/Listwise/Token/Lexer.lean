import Listwise.Error

/-!
# From text to tokens

`Piece.cut` cuts the longest piece off the front of a text: a token, something to skip, or a part that
is neither.  `tokenize` cuts a whole text so, counting its lines.

* Skipped: space, tab, carriage return, form feed, and `//` up to the end of the line.
* A number has an optional fraction and an optional exponent, each with at least one digit.
* A quoted text ends on the line on which it begins.
-/

namespace Listwise

namespace Token

/-- Whether `c` begins a word. -/
def isWordStart (c : Char) : Bool := c.isAlpha || c == '_'

/-- Whether `c` goes on with a word. -/
def isWordPart (c : Char) : Bool := c.isAlphanum || c == '_'

/-- The token that a word is. -/
def ofWord (name : String) : Token :=
  if name = "show" then .showWord else if name = "in" then .inWord else .word name

/-- Cuts the fraction of a number off, point included; nothing unless a digit follows the point. -/
def cutFraction : List Char → List Char × List Char
  | '.' :: c :: cs =>
    if c.isDigit then ('.' :: c :: cs.takeWhile Char.isDigit, cs.dropWhile Char.isDigit)
    else ([], '.' :: c :: cs)
  | cs => ([], cs)

/-- Cuts a sign off. -/
def cutSign : List Char → List Char × List Char
  | '+' :: cs => (['+'], cs)
  | '-' :: cs => (['-'], cs)
  | cs => ([], cs)

/-- Cuts the exponent of a number off; nothing unless it has a digit. -/
def cutExponent : List Char → List Char × List Char
  | [] => ([], [])
  | c :: cs =>
    if c = 'e' ∨ c = 'E' then
      match (cutSign cs).2 with
      | d :: ds =>
        if d.isDigit then
          (c :: (cutSign cs).1 ++ d :: ds.takeWhile Char.isDigit, ds.dropWhile Char.isDigit)
        else ([], c :: cs)
      | [] => ([], c :: cs)
    else ([], c :: cs)

/-- Cuts a number off that begins with the digit `c`. -/
def cutNumber (c : Char) (cs : List Char) : List Char × List Char :=
  let (fraction, cs₁) := cutFraction (cs.dropWhile Char.isDigit)
  let (exponent, cs₂) := cutExponent cs₁
  (c :: cs.takeWhile Char.isDigit ++ fraction ++ exponent, cs₂)

end Token

/-- What the front of a text is. -/
inductive Piece where
  | token (t : Token)
  | blank
  | newline
  | unknown (text : List Char)
  deriving DecidableEq, Repr

namespace Piece

/-- Whether `c` ends a quoted text or its line. -/
def endsQuoted (c : Char) : Bool := c == '"' || c == '\n'

/-- The mark that `c` is by itself, whatever follows. -/
def mark? : Char → Option Token
  | '+' => some .plus
  | '-' => some .minus
  | '*' => some .star
  | '^' => some .caret
  | '(' => some .leftParen
  | ')' => some .rightParen
  | '[' => some .leftBracket
  | ']' => some .rightBracket
  | ',' => some .comma
  | '|' => some .pipe
  | _ => none

/-- A quoted text, of which `cs` follows the opening quote. -/
def cutQuoted (cs : List Char) : Piece × List Char :=
  match cs.dropWhile (!endsQuoted ·) with
  | '"' :: rest => (.token (.quoted (String.ofList (cs.takeWhile (!endsQuoted ·)))), rest)
  | rest => (.unknown ('"' :: cs.takeWhile (!endsQuoted ·)), rest)

/-- A mark or a comment at the front of `c :: cs`. -/
def cutMark : Char → List Char → Piece × List Char
  | '/', '/' :: cs => (.blank, cs.dropWhile (· != '\n'))
  | '/', cs => (.token .slash, cs)
  | '.', '.' :: cs => (.token .dotDot, cs)
  | '=', '=' :: cs => (.token .equalEqual, cs)
  | '=', cs => (.token .equals, cs)
  | '<', '=' :: cs => (.token .lessEqual, cs)
  | '<', cs => (.token .less, cs)
  | '>', '=' :: cs => (.token .greaterEqual, cs)
  | '>', cs => (.token .greater, cs)
  | c, cs =>
    match mark? c with
    | some t => (.token t, cs)
    | none => (.unknown [c], cs)

/-- The longest piece at the front of `c :: cs`, and the rest. -/
def cut (c : Char) (cs : List Char) : Piece × List Char :=
  if c = '\n' then (.newline, cs)
  else if c = ' ' ∨ c = '\t' ∨ c = '\r' ∨ c = '\x0c' then (.blank, cs)
  else if c = '"' then cutQuoted cs
  else if c.isDigit then
    (.token (.number (String.ofList (Token.cutNumber c cs).1)), (Token.cutNumber c cs).2)
  else if Token.isWordStart c then
    (.token (Token.ofWord (String.ofList (c :: cs.takeWhile Token.isWordPart))),
      cs.dropWhile Token.isWordPart)
  else cutMark c cs

/-! ### The rest is no longer than what followed the first character -/

theorem length_dropWhile_le (p : Char → Bool) (cs : List Char) :
    (cs.dropWhile p).length ≤ cs.length :=
  (List.dropWhile_suffix p).length_le

theorem length_cutFraction_le (cs : List Char) : (Token.cutFraction cs).2.length ≤ cs.length := by
  fun_cases Token.cutFraction cs with
  | case1 c cs _ =>
    have := length_dropWhile_le Char.isDigit cs
    simp only [List.length_cons]
    omega
  | case2 => exact Nat.le_refl _
  | case3 => exact Nat.le_refl _

theorem length_cutSign_le (cs : List Char) : (Token.cutSign cs).2.length ≤ cs.length := by
  fun_cases Token.cutSign cs <;> simp

theorem length_cutExponent_le (cs : List Char) : (Token.cutExponent cs).2.length ≤ cs.length := by
  fun_cases Token.cutExponent cs with
  | case2 c cs _ d ds hs _ =>
    have h₁ := length_dropWhile_le Char.isDigit ds
    have h₂ := length_cutSign_le cs
    rw [hs] at h₂
    simp only [List.length_cons] at h₂ ⊢
    omega
  | _ => exact Nat.le_refl _

theorem length_cutNumber_le (c : Char) (cs : List Char) :
    (Token.cutNumber c cs).2.length ≤ cs.length :=
  Nat.le_trans (length_cutExponent_le _)
    (Nat.le_trans (length_cutFraction_le _) (length_dropWhile_le _ cs))

theorem length_cutQuoted_le (cs : List Char) : (cutQuoted cs).2.length ≤ cs.length := by
  have hq := length_dropWhile_le (!endsQuoted ·) cs
  fun_cases cutQuoted cs with
  | case1 rest h =>
    rw [h] at hq
    exact Nat.le_of_succ_le hq
  | case2 => exact hq

theorem length_cutMark_le (c : Char) (cs : List Char) : (cutMark c cs).2.length ≤ cs.length := by
  fun_cases cutMark c cs with
  | case1 cs => exact Nat.le_succ_of_le (length_dropWhile_le _ cs)
  | _ => simp

theorem length_cut_le (c : Char) (cs : List Char) : (cut c cs).2.length ≤ cs.length := by
  fun_cases cut c cs with
  | case1 => exact Nat.le_refl _
  | case2 => exact Nat.le_refl _
  | case3 => exact length_cutQuoted_le cs
  | case4 => exact length_cutNumber_le c cs
  | case5 => exact length_dropWhile_le _ cs
  | case6 => exact length_cutMark_le c cs

end Piece

namespace Token

/-- The tokens of a text that begins on `line`. -/
def scan (line : Nat) : List Char → Except Error (List Lexeme)
  | [] => .ok []
  | c :: cs =>
    match (Piece.cut c cs).1 with
    | .token t => do return ⟨t, line⟩ :: (← scan line (Piece.cut c cs).2)
    | .blank => scan line (Piece.cut c cs).2
    | .newline => scan (line + 1) (Piece.cut c cs).2
    | .unknown text => .error ⟨.unrecognized (String.ofList text), line⟩
termination_by cs => cs.length
decreasing_by all_goals exact Nat.lt_succ_of_le (Piece.length_cut_le c cs)

/-- The tokens of a text, of which the first line has the given number. -/
def tokenize (text : String) (line : Nat) : Except Error (List Lexeme) := scan line text.toList

end Token

end Listwise
