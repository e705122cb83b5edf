/-!
# Lines

* `splitLines`: a sequence cut at its newlines, as of a text or of raw bytes.  One carriage return
  right before a newline goes with it; the end of the sequence ends a line that has begun.
* `lines`: the lines of a text.
-/

namespace Listwise.Text

section Split

variable {α : Type} [BEq α]

/-- A line, of which the items are given last first, without a carriage return at its end. -/
def closeLine (carriage : α) : List α → List α
  | [] => []
  | x :: xs => if x == carriage then xs.reverse else (x :: xs).reverse

/-- Cuts the items that follow `seen` (last first), which has begun a line. -/
def splitLinesFrom (newline carriage : α) (seen : List α) : List α → List (List α)
  | [] => if seen.isEmpty then [] else [seen.reverse]
  | x :: xs =>
    if x == newline then closeLine carriage seen :: splitLinesFrom newline carriage [] xs
    else splitLinesFrom newline carriage (x :: seen) xs

/-- Cuts a sequence at its newlines. -/
def splitLines (newline carriage : α) (xs : List α) : List (List α) :=
  splitLinesFrom newline carriage [] xs

end Split

/-- The lines of a text, without their line ends. -/
def lines (text : String) : List String :=
  (splitLines '\n' '\r' text.toList).map String.ofList

end Listwise.Text
