import LintGate.Json.Shortest
import LintGate.Json.Value
import LintGate.Text.Quoted
import LintGate.Text.Utf8

/-!
# JSON — what can be wrong with a text

A reader that stops gives a reason and the place, as the number of bytes it leaves unread
(`Fault`).  Against the whole text this is a line and a column (`Misread`): lines are counted from
1, and a column is the number of bytes since the last line feed.
-/

namespace LintGate.Json

open Text

/-- What stands where a value of another kind is wanted. -/
inductive Found where
  | scalar (v : Value)
  | array
  | object

/-- Why a text cannot be read. -/
inductive Reason where
  /-- The text ends inside an array. -/
  | endInArray
  /-- The text ends inside an object. -/
  | endInObject
  /-- The text ends inside a string. -/
  | endInString
  /-- The text ends where a value is wanted, or inside one. -/
  | endInValue
  /-- A key is not followed by a colon. -/
  | colonWanted
  /-- An item is followed neither by a comma nor by the end of the array. -/
  | itemEndWanted
  /-- A member is followed neither by a comma nor by the end of the object. -/
  | memberEndWanted
  /-- A word begins like `true`, `false` or `null` and is not. -/
  | wordWanted
  /-- No value begins here. -/
  | valueWanted
  /-- A key does not begin with a quote. -/
  | keyWanted
  /-- A backslash is followed by no escape. -/
  | badEscape
  /-- A number is not written like one. -/
  | badNumber
  /-- A number is beyond the finite doubles. -/
  | outOfRange
  /-- A surrogate stands where it has no partner. -/
  | loneSurrogate
  /-- A leading surrogate is not followed by another escape. -/
  | partnerWanted
  /-- A control character stands in a string. -/
  | controlCharacter
  /-- A comma is followed by the end of its container. -/
  | commaBeforeEnd
  /-- Something follows where nothing more is wanted. -/
  | excess
  /-- Containers are nested too deeply. -/
  | tooDeep
  /-- A value is of the wrong kind. -/
  | wrongKind (found : Found) (wanted : String)
  /-- A field is not there. -/
  | missingField (name : String)
  /-- A field is there twice. -/
  | repeatedField (name : String)
  /-- A record written as an array has too few items. -/
  | tooFewItems (count : Nat) (wanted : String)

/-- The name of a kind of value in a message. -/
def Found.text : Found → String
  | .scalar .null                => "null"
  | .scalar (.bool b)            => "boolean `" ++ (if b then "true" else "false") ++ "`"
  | .scalar (.number (.int n))   => "integer `" ++ toString n ++ "`"
  | .scalar (.number (.double d)) => "floating point `" ++ String.ofList d.chars ++ "`"
  | .scalar (.string s)          => "string " ++ String.ofList (quote s.toList)
  | .scalar (.array _) | .array  => "sequence"
  | .scalar (.object _) | .object => "map"

/-- The message of a reason. -/
def Reason.text : Reason → String
  | .endInArray       => "EOF while parsing a list"
  | .endInObject      => "EOF while parsing an object"
  | .endInString      => "EOF while parsing a string"
  | .endInValue       => "EOF while parsing a value"
  | .colonWanted      => "expected `:`"
  | .itemEndWanted    => "expected `,` or `]`"
  | .memberEndWanted  => "expected `,` or `\x7d`"
  | .wordWanted       => "expected ident"
  | .valueWanted      => "expected value"
  | .keyWanted        => "key must be a string"
  | .badEscape        => "invalid escape"
  | .badNumber        => "invalid number"
  | .outOfRange       => "number out of range"
  | .loneSurrogate    => "lone leading surrogate in hex escape"
  | .partnerWanted    => "unexpected end of hex escape"
  | .controlCharacter =>
    "control character (\\u0000-\\u001F) found while parsing a string"
  | .commaBeforeEnd   => "trailing comma"
  | .excess           => "trailing characters"
  | .tooDeep          => "recursion limit exceeded"
  | .wrongKind f w    => "invalid type: " ++ f.text ++ ", expected " ++ w
  | .missingField n   => "missing field `" ++ n ++ "`"
  | .repeatedField n  => "duplicate field `" ++ n ++ "`"
  | .tooFewItems n w  => "invalid length " ++ toString n ++ ", expected " ++ w

/-- A reason, and the number of bytes behind the place it is found at. -/
structure Fault where
  /-- Why the text cannot be read. -/
  reason : Reason
  /-- The bytes behind the place. -/
  behind : Nat

/-- A fault with all of `s` unread. -/
def Fault.before (r : Reason) (s : List Char) : Fault :=
  ⟨r, Utf8.size s⟩

/-- A fault at the first byte of `s`, or at the end of the text if nothing is left. -/
def Fault.here (r : Reason) (s : List Char) : Fault :=
  ⟨r, Utf8.size s - 1⟩

/-- A fault at the end of the text. -/
def Fault.atEnd (r : Reason) : Fault :=
  ⟨r, 0⟩

/-- The line and column after `n` bytes of `s`, counted on from a line and a column. -/
def placeFrom : (line column : Nat) → List Char → Nat → Nat × Nat
  | line, column, [], _     => (line, column)
  | line, column, c :: s, n =>
    if n < c.utf8Size then (line, column + n)
    else if c = '\n' then placeFrom (line + 1) 0 s (n - 1)
    else placeFrom line (column + c.utf8Size) s (n - c.utf8Size)

/-- A fault with its place in a text. -/
structure Misread where
  /-- Why the text cannot be read. -/
  reason : Reason
  /-- The line of the fault. -/
  line : Nat
  /-- Its column. -/
  column : Nat

/-- The fault in the text `s`. -/
def Fault.locate (f : Fault) (s : List Char) : Misread :=
  let p := placeFrom 1 0 s (Utf8.size s - f.behind)
  ⟨f.reason, p.1, p.2⟩

/-- The message of a misread text. -/
def Misread.text (m : Misread) : String :=
  m.reason.text ++ " at line " ++ toString m.line ++ " column " ++ toString m.column

end LintGate.Json
