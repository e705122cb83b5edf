import Listwise.Text.Shapeless

/-!
# Quoted text

`quote` writes a text between double quotes so that it can be read in a message: tab, newline,
carriage return, NUL, quote and backslash by their usual escapes, a character without a shape of
its own by its code point, everything else as it is.
-/

namespace Listwise.Text

/-- One character of a quoted text. -/
def quoteChar (c : Char) : List Char :=
  match c with
  | '\t' => ['\\', 't']
  | '\r' => ['\\', 'r']
  | '\n' => ['\\', 'n']
  | '\x00' => ['\\', '0']
  | '"' => ['\\', '"']
  | '\\' => ['\\', '\\']
  | c =>
    if isShapeless c then ['\\', 'u', '\x7b'] ++ Nat.toDigits 16 c.toNat ++ ['\x7d'] else [c]

/-- The text between double quotes, with escapes. -/
def quote (text : String) : String :=
  String.ofList ('"' :: text.toList.flatMap quoteChar ++ ['"'])

end Listwise.Text
