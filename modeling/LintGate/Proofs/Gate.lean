import LintGate.Gate
import LintGate.Proofs.Issues
import LintGate.Proofs.Trace

/-!
# The gate — what it does

What a report does besides its remarks, and how it ends, is told by the issues and by where the
payload goes: with issues the payload is printed, unless it cannot be, and without issues the
announcer is all there is (`acts_report_block`, `acts_report_broken`, `acts_report_allow`).  Only a
payload is printed.
-/

namespace LintGate

/-! ### Verdicts -/

theorem Captured.verdict_block {c : Captured} (h : Issue.ofOutput c.stdout ≠ []) :
    c.verdict = .block (.block (Issue.ofOutput c.stdout)) := by
  rw [verdict]
  split
  · exact absurd ‹_› h
  · rfl

theorem Captured.verdict_allow {c : Captured} (h : Issue.ofOutput c.stdout = []) :
    c.verdict = .allow := by
  rw [verdict, h]

namespace Gate

/-! ### Remarks -/

theorem acts_remarks (c : Captured) : (remarks c).acts = [] := by
  rw [remarks, Trace.acts_append]
  split <;> split <;> rfl

/-- An announcer writes nothing to the output. -/
theorem stdout_program (w : Workspace) (name text : String) :
    (Announcer.program w name text).stdout = "" := by
  rw [Announcer.program]
  split <;> rfl

theorem acts_echoOf (verbose : Bool) (c : Captured) : (echoOf verbose c).acts = [] := rfl

/-! ### The report -/

section Report

variable {c : Captured}

theorem result_report_block (h : Issue.ofOutput c.stdout ≠ []) (o : Options) (a : Announcer) :
    (report o a .working c).result = .ok .block := by
  rw [report, Captured.verdict_block h]
  rfl

/-- With issues, printing them is all that is done. -/
theorem acts_report_block (h : Issue.ofOutput c.stdout ≠ []) (o : Options) (a : Announcer) :
    (report o a .working c).trace.acts =
      [.printed ((Payload.block (Issue.ofOutput c.stdout)).toJson ++ "\n")] := by
  rw [report, Captured.verdict_block h]
  simp [acts_remarks]

theorem result_report_broken (h : Issue.ofOutput c.stdout ≠ []) (o : Options) (a : Announcer)
    (e : SystemError) : (report o a (.broken e) c).result = .error (.system e) := by
  rw [report, Captured.verdict_block h]

/-- With issues and a sink that refuses them, nothing is done. -/
theorem acts_report_broken (h : Issue.ofOutput c.stdout ≠ []) (o : Options) (a : Announcer)
    (e : SystemError) : (report o a (.broken e) c).trace.acts = [] := by
  rw [report, Captured.verdict_block h]
  simp [acts_remarks]

theorem result_report_allow (h : Issue.ofOutput c.stdout = []) (o : Options) (a : Announcer)
    (sink : Sink) : (report o a sink c).result = .ok .allow := by
  rw [report, Captured.verdict_allow h]
  rfl

/-- Without issues, announcing is all that is done. -/
theorem acts_report_allow (h : Issue.ofOutput c.stdout = []) (o : Options) (a : Announcer)
    (sink : Sink) : (report o a sink c).trace.acts =
      if o.announce then (a o.announceText).acts else [] := by
  rw [report, Captured.verdict_allow h]
  simp only [Trace.acts_append, acts_remarks, acts_echoOf, Trace.acts_noted, List.nil_append]
  split <;> rfl

/-! ### What it does not depend on -/

/-- How a report ends is up to neither the options nor the announcer. -/
theorem result_report_eq (o o' : Options) (a a' : Announcer) (sink : Sink) (c : Captured) :
    (report o' a' sink c).result = (report o a sink c).result := by
  rw [report, report]
  cases c.verdict with
  | allow => rfl
  | block p => cases sink <;> rfl

/-- With issues, neither is what it does. -/
theorem acts_report_eq (h : Issue.ofOutput c.stdout ≠ []) (o o' : Options) (a a' : Announcer)
    (sink : Sink) : (report o' a' sink c).trace.acts = (report o a sink c).trace.acts := by
  cases sink with
  | working => rw [acts_report_block h, acts_report_block h]
  | broken e => rw [acts_report_broken h, acts_report_broken h]

/-! ### What others see of it -/

/-- With issues nothing is launched and nothing announced. -/
theorem quiet_report (h : Issue.ofOutput c.stdout ≠ []) (o : Options) (a : Announcer)
    (sink : Sink) : (report o a sink c).trace.calls = [] ∧
      (report o a sink c).trace.announcements = [] := by
  rw [← Trace.calls_acts, ← Trace.announcements_acts]
  cases sink with
  | working =>
      rw [acts_report_block h]
      exact ⟨rfl, rfl⟩
  | broken e =>
      rw [acts_report_broken h]
      exact ⟨rfl, rfl⟩

/-- With issues the payload is the output. -/
theorem stdout_report_block (h : Issue.ofOutput c.stdout ≠ []) (o : Options) (a : Announcer) :
    (report o a .working c).trace.stdout =
      (Payload.block (Issue.ofOutput c.stdout)).toJson ++ "\n" := by
  rw [← Trace.stdout_acts, acts_report_block h, Trace.stdout_printed]

theorem stdout_report_broken (h : Issue.ofOutput c.stdout ≠ []) (o : Options) (a : Announcer)
    (e : SystemError) : (report o a (.broken e) c).trace.stdout = "" := by
  rw [← Trace.stdout_acts, acts_report_broken h]
  rfl

/-- Without issues there is no output. -/
theorem stdout_report_allow (h : Issue.ofOutput c.stdout = []) {o : Options} {a : Announcer}
    (ha : ∀ text, (a text).stdout = "") (sink : Sink) :
    (report o a sink c).trace.stdout = "" := by
  rw [← Trace.stdout_acts, acts_report_allow h]
  split
  · rw [Trace.stdout_acts, ha]
  · rfl

end Report

/-! ### The run -/

section Run

variable {w : Workspace} {o : Options}

/-- A linter that cannot be launched ends the run. -/
theorem run_not_launched {e : SystemError}
    (h : w.launch o.command.program o.command.args = .error e) (a : Announcer) (sink : Sink) :
    run w o a sink =
      ⟨[.noted (.running o.command.display)], .error (.launch o.command.program e)⟩ := by
  rw [run, lint, h]

/-- A linter that can be launched is run to its end and then reported on. -/
theorem run_launched {listed : String} {p : Program}
    (h : w.launch o.command.program o.command.args = .ok (listed, p)) (a : Announcer)
    (sink : Sink) :
    run w o a sink =
      ⟨[.noted (.running o.command.display), .launched listed o.command.args,
          .noted (.finished p.captured.status p.captured.stdout.utf8ByteSize
            p.captured.stderr.utf8ByteSize)] ++ (report o a sink p.captured).trace,
        (report o a sink p.captured).result⟩ := by
  rw [run, lint, h]

end Run

end Gate

end LintGate
