import Listwise.Decimal.Basic

/-!
# Decimal literals

* A plain literal is an optional sign, digits and at most one point.  Underscores may separate
  digits anywhere after the first.  It is read exactly or not at all.
* A scientific literal is such a mantissa, an `e` or `E`, and an integer exponent.  Digits of the
  mantissa's fraction that find no room are rounded away.
* `parse?` reads either, and refuses a literal that has a nonzero digit and still reads as zero.
-/

namespace Listwise.Decimal

/-- The number written by a list of characters of which only the digits count. -/
def digitsValue (cs : List Char) : Nat :=
  (cs.filter Char.isDigit).foldl (fun n c => 10 * n + (c.toNat - '0'.toNat)) 0

/-- Takes in digits of a fraction while there is room: `m` is the mantissa and `s` the scale so
far.  Gives the mantissa, the scale and the characters that were left. -/
def takeFraction (m s : Nat) : List Char → Nat × Nat × List Char
  | [] => (m, s, [])
  | c :: cs =>
    if s = maxScale then (m, s, c :: cs)
    else if c = '_' then takeFraction m s cs
    else
      let m' := 10 * m + (c.toNat - '0'.toNat)
      if m' < capacity then takeFraction m' (s + 1) cs else (m, s, c :: cs)

/-- A literal without its exponent: the sign, the number before the point, and the characters
behind it. -/
structure Parts where
  negative : Bool
  whole : Nat
  fraction : List Char

/-- Splits a leading sign off. -/
def splitSign : List Char → Bool × List Char
  | '-' :: cs => (true, cs)
  | '+' :: cs => (false, cs)
  | cs => (false, cs)

/-- Whether `cs` are the digits of a literal: at least one digit, and underscores only behind the
first. -/
def isDigitRun : List Char → Bool
  | [] => false
  | c :: cs => c.isDigit && cs.all fun c => c.isDigit || c == '_'

/-- Splits a literal without exponent; `none` if it is not of the form of one, or its whole part
does not fit a mantissa. -/
def Parts.ofChars? (cs : List Char) : Option Parts :=
  let (negative, body) := splitSign cs
  let whole := body.takeWhile (· != '.')
  let fraction := (body.dropWhile (· != '.')).drop 1
  if isDigitRun (whole ++ fraction) && digitsValue whole < capacity then
    some ⟨negative, digitsValue whole, fraction⟩
  else none

/-- The literal as it is written; `none` if not all of its digits find room. -/
def Parts.exact? (p : Parts) : Option Decimal :=
  match takeFraction p.whole 0 p.fraction with
  | (m, s, []) => ofParts? (p.negative && m != 0) m s
  | _ => none

/-- A mantissa below this bound takes in one more digit within a single 64-bit word: it is
`(2 ^ 64 - 1) / 10`, less a margin of 255. -/
abbrev wordBound : Nat := 1844674407370954906

/-- The digit that decides how the mantissa `m` is rounded, given the characters that found no room:
the first digit among them.  A mantissa whose last digit was taken in within a word is cut at an
underscore that follows it directly. -/
def roundingDigit? (m : Nat) (left : List Char) : Option Char :=
  if m / 10 < wordBound then left.head?.filter Char.isDigit else left.find? Char.isDigit

/-- The literal rounded by a digit that found no room: up from `5`. -/
def Parts.rounded? (p : Parts) : Option Decimal :=
  let (m, s, left) := takeFraction p.whole 0 p.fraction
  let m' := if (roundingDigit? m left).any ('5' ≤ ·) then m + 1 else m
  if m' < capacity then ofParts? (p.negative && m' != 0) m' s
  else if s = 0 then none
  else ofParts? p.negative ((m' + 4) / 10) (s - 1)

/-- Reads a plain literal, exactly. -/
def ofPlain? (cs : List Char) : Option Decimal := (Parts.ofChars? cs).bind Parts.exact?

/-- Reads an unsigned exponent of 32 bits: an optional plus sign and at least one digit. -/
def exponent? (cs : List Char) : Option Nat :=
  let digits := match cs with
    | '+' :: ds => ds
    | ds => ds
  if digits ≠ [] ∧ digits.all Char.isDigit ∧ digitsValue digits < 4294967296 then
    some (digitsValue digits)
  else none

/-- The decimal times `10 ^ e`; `none` if it does not fit or `e` exceeds both the largest scale and
the scale of `d`. -/
def scaleUp? (d : Decimal) (e : Nat) : Option Decimal :=
  if e ≤ d.scale then ofParts? d.negative d.mantissa (d.scale - e)
  else if e ≤ maxScale then ofParts? d.negative (d.mantissa * tenPow (e - d.scale)) 0
  else none

/-- The decimal times `10 ^ -e`; `none` if its scale does not fit or `e` alone exceeds the largest
scale. -/
def scaleDown? (d : Decimal) (e : Nat) : Option Decimal :=
  if e ≤ maxScale then ofParts? d.negative d.mantissa (d.scale + e) else none

/-- Reads a scientific literal, given its mantissa and what follows the exponent mark. -/
def ofScientific? (mantissa exponent : List Char) : Option Decimal := do
  let d ← (← Parts.ofChars? mantissa).rounded?
  match exponent with
  | '-' :: digits => d.scaleDown? (← exponent? digits)
  | digits => d.scaleUp? (← exponent? digits)

/-- Whether `c` marks an exponent. -/
def isExponentMark (c : Char) : Bool := c == 'e' || c == 'E'

/-- Reads a literal, plain or scientific.  A literal with a nonzero digit in its mantissa is refused
if it reads as zero. -/
def ofChars? (cs : List Char) : Option Decimal :=
  let mantissa := cs.takeWhile (!isExponentMark ·)
  let read := match cs.dropWhile (!isExponentMark ·) with
    | _ :: exponent => ofScientific? mantissa exponent
    | [] => ofPlain? mantissa
  read.filter fun d => !(d.isZero && mantissa.any fun c => '1' ≤ c && c ≤ '9')

/-- Reads the text of a literal. -/
def parse? (text : String) : Option Decimal := ofChars? text.toList

end Listwise.Decimal
