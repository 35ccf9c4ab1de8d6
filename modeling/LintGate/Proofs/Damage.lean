import LintGate.Launch
import LintGate.Proofs.Issues
import LintGate.Proofs.Text.Utf8

/-!
# Damage — it stays on its line

A linter may write bytes that are no text.  A line feed in them is a line feed whatever stands
before it, and both the decoder and the issues start anew behind it: each line of the bytes has the
issues it would have alone, and a line that is text is reported as it was written, whatever damage
there is around it (`Program.lines_apart`).
-/

namespace LintGate

open Text

namespace Program

/-- The program, had it written these bytes to its output. -/
def writing (p : Program) (bs : Bytes) : Program := { p with stdout := bs }

/-- The issues the program leaves behind. -/
def issues (p : Program) : List String := Issue.ofOutput p.captured.stdout

theorem issues_writing (p : Program) (bs : Bytes) :
    (p.writing bs).issues = (Issue.ofText (Utf8.lossy bs)).map String.ofList := by
  rw [issues, captured, Issue.ofOutput, String.toList_ofList]
  rfl

/-- A line feed separates the issues of a program on its two sides. -/
theorem issues_append_lineFeed (p : Program) (a b : Bytes) :
    (p.writing (a ++ 0x0A :: b)).issues = (p.writing a).issues ++ (p.writing b).issues := by
  simp only [issues_writing, Utf8.lossy_append_lineFeed, Issue.ofText_append_lineFeed,
    List.map_append]

/-- Bytes that are a text have its issues. -/
theorem issues_encode (p : Program) (text : String) :
    (p.writing (Utf8.encode text.toList)).issues = Issue.ofOutput text := by
  rw [issues_writing, Utf8.lossy_encode, Issue.ofOutput]

/-- **Damage stays on its line.**  Whatever the bytes on both sides of a line feed are, they are
decoded each on their own, and the issues are those of the one side and then those of the other.
A line that is text has the issues of that text wherever it stands, and if it looks like an issue
it is that issue. -/
theorem lines_apart (p : Program) (a b : Bytes) :
    (∀ us vs, Utf8.Decodes a us → Utf8.Decodes b vs →
      Utf8.Decodes (a ++ 0x0A :: b) (us ++ some '\n' :: vs)) ∧
    (p.writing (a ++ 0x0A :: b)).issues = (p.writing a).issues ++ (p.writing b).issues ∧
    ∀ line : String,
      (p.writing (Utf8.encode line.toList ++ 0x0A :: b)).issues =
        Issue.ofOutput line ++ (p.writing b).issues ∧
      (p.writing (a ++ 0x0A :: Utf8.encode line.toList)).issues =
        (p.writing a).issues ++ Issue.ofOutput line ∧
      (p.writing (a ++ 0x0A :: (Utf8.encode line.toList ++ 0x0A :: b))).issues =
        (p.writing a).issues ++ Issue.ofOutput line ++ (p.writing b).issues ∧
      (Issue.IsIssue line.toList → Issue.ofOutput line = [line]) := by
  refine ⟨?_, issues_append_lineFeed p a b, fun line => ⟨?_, ?_, ?_, ?_⟩⟩
  · intro us vs hus hvs
    rw [Utf8.decodes_iff] at hus hvs ⊢
    rw [Utf8.units_append_cons (by decide), hus, hvs]
    rfl
  · rw [issues_append_lineFeed, issues_encode]
  · rw [issues_append_lineFeed, issues_encode]
  · rw [issues_append_lineFeed, issues_append_lineFeed, issues_encode, List.append_assoc]
  · intro h
    rw [Issue.ofOutput, Issue.ofText_of_isIssue h, List.map_singleton, String.ofList_toList]

/-- A character of three bytes cut short by a line feed, and one that begins at the end. -/
example : (writing {} [0xE2, 0x82, 0x0A, 0x61, 0xF0, 0x9F]).issues = ["\uFFFD", "a\uFFFD"] := by
  decide

end Program

end LintGate
