import LintGate.Text.Shape

/-!
# Text — quoted text

A text quoted inside a message stands between double quotes.  A quote and a backslash are written
after a backslash; tab, carriage return, line feed and NUL have letters of their own; any other
character without a shape of its own is written as its code point in hexadecimal.
-/

namespace LintGate.Text

/-- The lowercase hexadecimal digits of a number. -/
def hex (n : Nat) : List Char :=
  Nat.toDigits 16 n

/-- A character as it is written inside a quoted text. -/
def quoteChar (c : Char) : List Char :=
  match c with
  | '\x00' => ['\\', '0']
  | '\t'   => ['\\', 't']
  | '\r'   => ['\\', 'r']
  | '\n'   => ['\\', 'n']
  | '"'    => ['\\', '"']
  | '\\'   => ['\\', '\\']
  | _      => if hasShape c then [c] else ['\\', 'u', '\x7b'] ++ hex c.toNat ++ ['\x7d']

/-- `s` between quotes. -/
def quote (s : List Char) : List Char :=
  '"' :: s.flatMap quoteChar ++ ['"']

end LintGate.Text
