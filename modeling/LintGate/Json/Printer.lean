import LintGate.Json.Shortest
import LintGate.Json.Value
import LintGate.Text.Quoted

/-!
# JSON — writing values

One printer serves both layouts of a document: on one line without a space (`compact`), or with
every item and member on a line of its own, indented by two spaces for each container around it
(`indented`).  Empty containers are written without a break in both.

In a string only the quote, the backslash and the characters below the space are escaped.
-/

namespace LintGate.Json

open Text

/-- The escape of a character below the space: a letter where there is one, and else its code point
in four hexadecimal digits. -/
def escapeControl (c : Char) : List Char :=
  match c with
  | '\x08' => ['\\', 'b']
  | '\t'   => ['\\', 't']
  | '\n'   => ['\\', 'n']
  | '\x0c' => ['\\', 'f']
  | '\r'   => ['\\', 'r']
  | _      => ['\\', 'u', '0', '0', Nat.digitChar (c.toNat / 16), Nat.digitChar (c.toNat % 16)]

/-- A character as it is written in a string. -/
def escapeChar (c : Char) : List Char :=
  if c = '"' then ['\\', '"']
  else if c = '\\' then ['\\', '\\']
  else if c < ' ' then escapeControl c
  else [c]

/-- A string with its quotes. -/
def stringChars (s : String) : List Char :=
  '"' :: s.toList.flatMap escapeChar ++ ['"']

/-- The decimal text of a whole number. -/
def intChars (n : Int) : List Char :=
  if n < 0 then '-' :: Decimal.chars n.natAbs else Decimal.chars n.natAbs

/-- The text of a number. -/
def Number.chars : Number → List Char
  | .int n    => intChars n
  | .double d => d.chars

/-- How the parts of a document are set apart. -/
structure Style where
  /-- What stands before an item or a closing bracket inside a number of containers. -/
  lineBreak : Nat → List Char
  /-- What stands between a key and its value. -/
  colon : List Char

/-- All on one line, without a space. -/
def Style.compact : Style :=
  { lineBreak := fun _ => [], colon := [':'] }

/-- Each item on its own line, indented by two spaces a level. -/
def Style.indented : Style :=
  { lineBreak := fun level => '\n' :: List.replicate (2 * level) ' ', colon := [':', ' '] }

namespace Value

mutual

/-- The text of a value inside `level` containers. -/
def chars (st : Style) (level : Nat) : Value → List Char
  | .null           => ['n', 'u', 'l', 'l']
  | .bool true      => ['t', 'r', 'u', 'e']
  | .bool false     => ['f', 'a', 'l', 's', 'e']
  | .number n       => n.chars
  | .string s       => stringChars s
  | .array []       => ['[', ']']
  | .array (v :: vs) =>
    '[' :: st.lineBreak (level + 1) ++ chars st (level + 1) v ++ moreItems st (level + 1) vs
      ++ st.lineBreak level ++ [']']
  | .object []      => ['\x7b', '\x7d']
  | .object ((k, v) :: ms) =>
    '\x7b' :: st.lineBreak (level + 1) ++ stringChars k ++ st.colon ++ chars st (level + 1) v
      ++ moreMembers st (level + 1) ms ++ st.lineBreak level ++ ['\x7d']

/-- The items after the first, each behind a comma. -/
def moreItems (st : Style) (level : Nat) : List Value → List Char
  | []      => []
  | v :: vs => ',' :: st.lineBreak level ++ chars st level v ++ moreItems st level vs

/-- The members after the first, each behind a comma. -/
def moreMembers (st : Style) (level : Nat) : Members → List Char
  | []           => []
  | (k, v) :: ms =>
    ',' :: st.lineBreak level ++ stringChars k ++ st.colon ++ chars st level v
      ++ moreMembers st level ms

end

/-- The value on one line. -/
def compact (v : Value) : String :=
  String.ofList (v.chars .compact 0)

/-- The value with indented lines. -/
def indented (v : Value) : String :=
  String.ofList (v.chars .indented 0)

end Value

end LintGate.Json
