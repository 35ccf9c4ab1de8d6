import LintGate.Json.Binary64
import LintGate.Json.Members

/-!
# JSON — values

A value as it was read.  Whole numbers and doubles are kept apart, and objects keep the order of
their members.  Two values are the `same` if they differ at most in the order of members: objects
are compared by name at every level, arrays place by place, a whole number is never the same as a
double, and the two zeros among the doubles are one number.
-/

namespace LintGate.Json

/-- A number: whole, or a double. -/
inductive Number where
  | int (n : Int)
  | double (d : Binary64)
  deriving DecidableEq, Repr

/-- A JSON value. -/
inductive Value where
  | null
  | bool (b : Bool)
  | number (n : Number)
  | string (s : String)
  | array (items : List Value)
  | object (members : List (String × Value))
  deriving Repr

/-- The members of an object. -/
abbrev Members := List (String × Value)

/-- Equal as numbers of one kind. -/
def Number.same : Number → Number → Bool
  | .int m, .int n       => m == n
  | .double a, .double b => a.same b
  | _, _                 => false

namespace Value

/-- The value of a member, if the value is an object that has it. -/
def get? (k : String) : Value → Option Value
  | .object ms => Members.get? k ms
  | _          => none

/-- The items, if the value is an array. -/
def items? : Value → Option (List Value)
  | .array vs => some vs
  | _         => none

/-- The text, if the value is a string. -/
def text? : Value → Option String
  | .string s => some s
  | _         => none

mutual

/-- Equal up to the order of members. -/
def same : Value → Value → Bool
  | .null, .null           => true
  | .bool a, .bool b       => a == b
  | .number m, .number n   => m.same n
  | .string s, .string t   => s == t
  | .array vs, .array ws   => sameItems vs ws
  | .object ms, .object ns => ms.length == ns.length && foundIn ms ns
  | _, _                   => false

/-- Equal item by item. -/
def sameItems : List Value → List Value → Bool
  | [], []           => true
  | v :: vs, w :: ws => same v w && sameItems vs ws
  | _, _             => false

/-- Every member has its equal under the same name in `ns`. -/
def foundIn : Members → Members → Bool
  | [], _            => true
  | (k, v) :: ms, ns =>
    (match Members.get? k ns with
      | some w => same v w
      | none   => false) && foundIn ms ns

end

end Value

end LintGate.Json
