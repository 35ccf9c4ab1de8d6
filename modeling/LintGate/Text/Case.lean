/-!
# Text — letter case

Words of a fixed vocabulary are compared without regard to case, and only the letters of ASCII have
one here.
-/

namespace LintGate.Text

/-- `s` with its ASCII letters in lower case. -/
def lower (s : String) : String :=
  String.ofList (s.toList.map Char.toLower)

end LintGate.Text
