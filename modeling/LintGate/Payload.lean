import LintGate.Json.Printer
import LintGate.Json.Record

/-!
# The payload

The answer that holds a stop back is one line of JSON: that the agent must not be let go, and the
reason, a banner with one bulleted line for each issue below it.
-/

namespace LintGate

open Json

/-- What the agent is told. -/
structure Payload where
  /-- The agent may stop. -/
  proceed : Bool
  /-- Why it may not. -/
  reason : String
  deriving DecidableEq, Repr

namespace Payload

/-- The first line of every reason. -/
def banner : String := "⚠️ BONZAI BURN FOUND ISSUES:"

/-- What stands before each issue. -/
def bullet : String := "• "

/-- The banner, and each issue on a line of its own below it. -/
def reasonFor (issues : List String) : String :=
  banner ++ String.join (issues.map fun issue => "\n" ++ bullet ++ issue)

/-- The payload that holds the stop back for these issues. -/
def block (issues : List String) : Payload :=
  ⟨false, reasonFor issues⟩

/-- The payload as a document. -/
def toValue (p : Payload) : Value :=
  .object [("continue", .bool p.proceed), ("stopReason", .string p.reason)]

/-- The payload as one line. -/
def toJson (p : Payload) : String :=
  p.toValue.compact

/-- The fields of a payload while they are read. -/
structure Draft where
  /-- The field `continue`. -/
  proceed : Option Bool := none
  /-- The field `stopReason`. -/
  reason : Option String := none

/-- A payload as a record; both fields are needed. -/
def record : Record Draft Payload where
  name := "struct HookResponse"
  empty := {}
  fields :=
    [{ name := "continue"
       given := (·.proceed.isSome)
       read := fun d s => (readBool s).map (Read.map fun b => { d with proceed := some b }) },
     { name := "stopReason"
       given := (·.reason.isSome)
       read := fun d s => (readString s).map (Read.map fun t => { d with reason := some t }) }]
  finish := fun d =>
    match d.proceed, d.reason with
    | none, _        => .error (.missingField "continue")
    | some _, none   => .error (.missingField "stopReason")
    | some b, some t => .ok ⟨b, t⟩
  short := fun n _ => .error (.tooFewItems n "struct HookResponse with 2 elements")

/-- The payload a text stands for. -/
def parse (text : String) : Except Misread Payload :=
  parseWith record.read text

end Payload

end LintGate
