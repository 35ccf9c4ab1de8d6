import LintGate.Text.Blank
import LintGate.Text.Lines

/-!
# Issues

Every line of a linter's output that is not blank is one issue: the line without the blanks around
it.  No further structure is read into a line.
-/

namespace LintGate.Issue

open Text

/-- The issues of a text, in its order. -/
def ofText (s : List Char) : List (List Char) :=
  ((split '\n' (trimBy isBlank s)).map (trimBy isBlank)).filter fun l => !l.isEmpty

/-- The issues of a linter's output. -/
def ofOutput (output : String) : List String :=
  (ofText output.toList).map String.ofList

end LintGate.Issue
