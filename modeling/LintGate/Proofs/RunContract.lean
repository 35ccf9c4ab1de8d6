import LintGate.Proofs.PayloadLine
import LintGate.Proofs.Text.Utf8
import LintGate.Session

/-!
# The run command — its contract

A call that asks for a run shows its caller an exit code and an output, and both are told by one
thing alone, the bytes that the linter wrote to its output, or that it could not be launched
(`Gate.told`, `Session.told_step`).  A stop is let pass exactly if these bytes are the encoding of a
blank text: whatever is not valid UTF-8 is read as a character that is not blank.
-/

namespace LintGate

open Text

/-! ### Blank outputs -/

/-- The encoding of a text of nothing but blanks. -/
def BlankBytes (bs : Bytes) : Prop :=
  ∃ s, bs = Utf8.encode s ∧ ∀ c ∈ s, isBlank c = true

/-- Bytes are blank exactly if they are read as blanks alone. -/
theorem blankBytes_iff {bs : Bytes} : BlankBytes bs ↔ ∀ c ∈ Utf8.lossy bs, isBlank c = true := by
  constructor
  · rintro ⟨s, rfl, hs⟩
    rwa [Utf8.lossy_encode]
  · intro h
    have hnone : none ∉ Utf8.units bs := by
      intro hm
      have hc := h _ (List.mem_map_of_mem hm)
      revert hc
      decide
    exact ⟨Utf8.lossy bs, (Utf8.encode_lossy hnone).symm, h⟩

/-- Bytes hold no issue exactly if they are blank. -/
theorem ofOutput_lossy_eq_nil_iff (bs : Bytes) :
    Issue.ofOutput (String.ofList (Utf8.lossy bs)) = [] ↔ BlankBytes bs := by
  rw [Issue.ofOutput_eq_nil_iff, blankBytes_iff, String.toList_ofList]

/-! ### What a run tells -/

/-- The bytes a command writes to its output, if it can be launched. -/
def Workspace.outputOf? (w : Workspace) (i : Invocation) : Option Bytes :=
  (w.launch i.program i.args).toOption.map fun found => found.2.stdout

theorem Workspace.outputOf?_of_error {w : Workspace} {i : Invocation} {e : SystemError}
    (h : w.launch i.program i.args = .error e) : w.outputOf? i = none := by
  rw [outputOf?, h]
  rfl

theorem Workspace.outputOf?_of_ok {w : Workspace} {i : Invocation} {listed : String} {p : Program}
    (h : w.launch i.program i.args = .ok (listed, p)) : w.outputOf? i = some p.stdout := by
  rw [outputOf?, h]
  rfl

namespace Gate

/-- The exit code and the output of a run, by what its linter wrote. -/
def told : Option Bytes → ExitCode × String
  | none    => (.internalError, "")
  | some bs =>
    match Issue.ofOutput (String.ofList (Utf8.lossy bs)) with
    | [] => (.allow, "")
    | is => (.block, (Payload.block is).toJson ++ "\n")

/-- Blank bytes tell to let the stop pass in silence. -/
theorem told_blank {bs : Bytes} (h : BlankBytes bs) : told (some bs) = (.allow, "") := by
  rw [told, (ofOutput_lossy_eq_nil_iff bs).mpr h]

/-- Any other bytes tell to hold it back with a payload. -/
theorem told_block {bs : Bytes} (h : ¬ BlankBytes bs) :
    told (some bs) = (.block,
      (Payload.block (Issue.ofOutput (String.ofList (Utf8.lossy bs)))).toJson ++ "\n") := by
  rw [told]
  split
  next hnil => exact absurd ((ofOutput_lossy_eq_nil_iff bs).mp hnil) h
  · rfl

/-- What a run tells is told by its linter's output. -/
theorem told_run (w : Workspace) (o : Options) (name : String) :
    let done := run w o (.program w name) .working
    ((match done.result with | .ok code => code | .error _ => .internalError), done.trace.stdout) =
      told (w.outputOf? o.command) := by
  intro done
  cases h : w.launch o.command.program o.command.args with
  | error e =>
      rw [Workspace.outputOf?_of_error h, show done = _ from run_not_launched h _ _]
      rfl
  | ok found =>
      obtain ⟨listed, p⟩ := found
      rw [Workspace.outputOf?_of_ok h, show done = _ from run_launched h _ _]
      simp only [Trace.stdout_append]
      change (_, "" ++ _) = _
      rw [String.empty_append]
      have hissues : Issue.ofOutput p.captured.stdout = [] ↔ BlankBytes p.stdout :=
        ofOutput_lossy_eq_nil_iff p.stdout
      by_cases hblank : BlankBytes p.stdout
      · have hnil := hissues.mpr hblank
        rw [told_blank hblank, result_report_allow hnil,
          stdout_report_allow hnil (stdout_program w name)]
      · have hne := mt hissues.mp hblank
        rw [told_block hblank, result_report_block hne, stdout_report_block hne]
        rfl

end Gate

/-! ### Calls for a run -/

namespace Session

open CommandLine

variable {stamp : Stamp} {reader : Filter.Reader} {env : Environment} {words : List Word}
  {w : Workspace} {r : Request} {a : RunArgs}

/-- A call for a run, with the command named or not, runs the gate. -/
theorem step_run (h : Request.parse env words = .ok r) (ha : r.runArgs? = some a) :
    step stamp env words w reader =
      seen Failure.report stamp (Filter.ofVariable reader a.verbose env.log)
        (Gate.run w a.options (.program w a.program) .working) w.files := by
  obtain ⟨top, command⟩ := r
  rw [step, h]
  rcases command with _ | _ | action
  · cases ha
    rfl
  · cases ha
    rfl
  · cases ha

/-- The exit code and the output of a call for a run are told by what its linter wrote. -/
theorem told_step (stamp : Stamp) (reader : Filter.Reader) (w : Workspace)
    (h : Request.parse env words = .ok r) (ha : r.runArgs? = some a) :
    (step stamp env words w reader).exitCode =
      (Gate.told (w.outputOf? a.options.command)).1.toNat ∧
    (step stamp env words w reader).stdout = (Gate.told (w.outputOf? a.options.command)).2 := by
  rw [step_run h ha, ← Gate.told_run w a.options a.program]
  obtain ⟨trace, result⟩ := Gate.run w a.options (.program w a.program) .working
  cases result with
  | ok code => exact ⟨rfl, rfl⟩
  | error e => exact ⟨rfl, rfl⟩

/-- A note is nothing on the error output, or a line. -/
theorem stderr_noted (stamp : Stamp) (f : Filter) (n : Note) :
    Trace.stderr stamp f [.noted n] = "" ∨ ∃ l, Trace.stderr stamp f [.noted n] = l ++ "\n" := by
  cases hshows : f n with
  | false =>
      left
      simp only [Trace.stderr, List.filterMap_cons, hshows, Bool.false_eq_true, if_false,
        List.filterMap_nil, String.join_nil]
  | true =>
      right
      refine ⟨stamp.time ++ " " ++ n.level.label ++ " " ++ n.text stamp.process, ?_⟩
      simp only [Trace.stderr, List.filterMap_cons, hshows, if_true, List.filterMap_nil,
        String.join_cons, String.join_nil, String.append_empty]
      rw [Note.line]

/-- The line for a linter that was not launched names it and the cause. -/
theorem errorLine_launch (name : String) (e : SystemError) :
    errorLine (Failure.launch name e).report =
      "error: failed to launch `" ++ name ++ "`: " ++ e.text ++ ": " ++ e.text ++ "\n" := by
  have hword : "error: " ++ "failed to launch `" = "error: failed to launch `" := by decide
  change "error: " ++ ("failed to launch `" ++ name ++ "`: " ++ e.text ++ ": " ++ e.text)
    ++ "\n" = _
  simp only [← String.append_assoc]
  rw [hword]

/-- A call whose linter cannot be launched fails, prints nothing and launches nothing. -/
theorem step_not_launched (stamp : Stamp) (reader : Filter.Reader)
    (h : Request.parse env words = .ok r) (ha : r.runArgs? = some a) {e : SystemError}
    (he : w.launch a.options.command.program a.options.command.args = .error e) :
    (step stamp env words w reader).exitCode = 1 ∧ (step stamp env words w reader).stdout = "" ∧
    (step stamp env words w reader).calls = [] := by
  obtain ⟨hcode, hstdout⟩ := told_step stamp reader w h ha
  rw [Workspace.outputOf?_of_error he] at hcode hstdout
  refine ⟨hcode, hstdout, ?_⟩
  rw [step_run h ha, Gate.run_not_launched he]
  rfl

/-- A call whose linter was launched lets the stop pass in silence if the linter's output is blank,
and else holds it back with a payload. -/
theorem step_launched (stamp : Stamp) (reader : Filter.Reader)
    (h : Request.parse env words = .ok r) (ha : r.runArgs? = some a) {listed : String} {p : Program}
    (hp : w.launch a.options.command.program a.options.command.args = .ok (listed, p)) :
    (BlankBytes p.stdout →
      (step stamp env words w reader).exitCode = 0 ∧ (step stamp env words w reader).stdout = "") ∧
    (¬ BlankBytes p.stdout →
      (step stamp env words w reader).exitCode = 2 ∧ (step stamp env words w reader).stdout =
        (Payload.block (Issue.ofOutput p.captured.stdout)).toJson ++ "\n") := by
  obtain ⟨hcode, hstdout⟩ := told_step stamp reader w h ha
  rw [Workspace.outputOf?_of_ok hp] at hcode hstdout
  constructor
  · intro hblank
    rw [Gate.told_blank hblank] at hcode hstdout
    exact ⟨hcode, hstdout⟩
  · intro hne
    rw [Gate.told_block hne] at hcode hstdout
    exact ⟨hcode, hstdout⟩

/-- A linter that cannot be launched is named in the last line of the error output. -/
theorem stderr_not_launched (h : Request.parse env words = .ok r) (ha : r.runArgs? = some a)
    {e : SystemError} (he : w.launch a.options.command.program a.options.command.args = .error e) :
    ∃ before : String, (before = "" ∨ ∃ l, before = l ++ "\n") ∧
      (step stamp env words w reader).stderr = before ++ ("error: failed to launch `" ++
        a.options.command.program ++ "`: " ++ e.text ++ ": " ++ e.text ++ "\n") := by
  rw [step_run h ha, Gate.run_not_launched he, ← errorLine_launch]
  exact ⟨_, stderr_noted stamp _ _, rfl⟩

/-- **The contract of the run command.**  No file changes.  If the linter cannot be launched, the
call fails, prints nothing, launches nothing and says so.  Otherwise the stop is let pass without a
word exactly if the linter's output is blank, and else held back with one payload line.  Exit code
and output are the same in any two calls that agree on what the linter wrote. -/
theorem step_contract (stamp : Stamp) (reader : Filter.Reader) (w : Workspace)
    (h : Request.parse env words = .ok r) (ha : r.runArgs? = some a) :
    let linter := a.options.command
    let answer := step stamp env words w reader
    answer.files = w.files ∧
    (∀ e, w.launch linter.program linter.args = .error e →
      answer.exitCode = 1 ∧ answer.stdout = "" ∧ answer.calls = [] ∧
      ∃ before : String, (before = "" ∨ ∃ l, before = l ++ "\n") ∧
        answer.stderr = before ++ ("error: failed to launch `" ++ linter.program ++ "`: " ++
          e.text ++ ": " ++ e.text ++ "\n")) ∧
    (∀ listed p, w.launch linter.program linter.args = .ok (listed, p) →
      (answer.exitCode = 0 ∧ answer.stdout = "" ↔ BlankBytes p.stdout) ∧
      (¬ BlankBytes p.stdout →
        answer.exitCode = 2 ∧ Issue.ofOutput p.captured.stdout ≠ [] ∧
        ∃ line, answer.stdout = line ++ "\n" ∧
          Payload.Carries line (Issue.ofOutput p.captured.stdout))) ∧
    ∀ (stamp' : Stamp) (reader' : Filter.Reader) (env' : Environment) (words' : List Word)
      (w' : Workspace) (r' : Request) (a' : RunArgs), Request.parse env' words' = .ok r' →
      r'.runArgs? = some a' → w'.outputOf? a'.options.command = w.outputOf? linter →
      (step stamp' env' words' w' reader').exitCode = answer.exitCode ∧
      (step stamp' env' words' w' reader').stdout = answer.stdout := by
  intro linter answer
  refine ⟨congrArg Answer.files (step_run h ha), ?_, ?_, ?_⟩
  · intro e he
    obtain ⟨hcode, hstdout, hcalls⟩ := step_not_launched stamp reader h ha he
    exact ⟨hcode, hstdout, hcalls, stderr_not_launched h ha he⟩
  · intro listed p hp
    obtain ⟨hallow, hblock⟩ := step_launched stamp reader h ha hp
    refine ⟨⟨?_, hallow⟩, ?_⟩
    · rintro ⟨hzero, -⟩
      by_contra hne
      have htwo : answer.exitCode = 2 := (hblock hne).1
      rw [hzero] at htwo
      cases htwo
    · intro hne
      obtain ⟨htwo, hline⟩ := hblock hne
      refine ⟨htwo, mt (ofOutput_lossy_eq_nil_iff p.stdout).mp hne, _, hline, ?_⟩
      exact Payload.carries_block fun _ => Issue.not_mem_of_mem_ofOutput
  · intro stamp' reader' env' words' w' r' a' h' ha' hsame
    -- what a call tells depends on nothing but its linter's output
    obtain ⟨hcode, hstdout⟩ := told_step stamp reader w h ha
    obtain ⟨hcode', hstdout'⟩ := told_step stamp' reader' w' h' ha'
    rw [hsame] at hcode' hstdout'
    exact ⟨hcode'.trans hcode.symm, hstdout'.trans hstdout.symm⟩

/-- A linter outside the project that is killed in the middle of a character holds the stop back,
and the announcer asked for, which is not there, has no part in it. -/
theorem step_contract_cut_short :
    let words := ["run", "--announce", "--announce-program", "gone", "--", "/opt/lint"].map
      Word.spelling
    let w : Workspace :=
      { root := "/p", files := .directory []
        programs := [("/opt/lint", { stdout := [0xE2, 0x80], status := none })] }
    (step ⟨"", ""⟩ {} words w Directive.reader).exitCode = 2 ∧
    ∃ line, (step ⟨"", ""⟩ {} words w Directive.reader).stdout = line ++ "\n" ∧
      Payload.Carries line ["\uFFFD"] := by
  intro words w
  let top : RunArgs := ⟨false, "say", "Bonzai burn complete", false, []⟩
  let args : RunArgs := { top with announce := true, program := "gone", linter := ["/opt/lint"] }
  have hparse : Request.parse {} words = .ok ⟨top, some (.run args)⟩ := by decide
  obtain ⟨-, -, hlaunched, -⟩ := step_contract ⟨"", ""⟩ Directive.reader w hparse rfl
  let linter : Program := { stdout := [0xE2, 0x80], status := none }
  have hnot : ¬ BlankBytes linter.stdout := by
    rw [blankBytes_iff]
    intro h
    exact absurd (h '\uFFFD' (by decide)) (by decide)
  have hlaunch : w.launch "/opt/lint" [] = .ok ("/opt/lint", linter) := by
    simp only [w]
    rfl
  obtain ⟨hcode, -, line, hline, hcarries⟩ := (hlaunched "/opt/lint" linter hlaunch).2 hnot
  have hissues : Issue.ofOutput linter.captured.stdout = ["\uFFFD"] := by decide
  exact ⟨hcode, line, hline, hissues ▸ hcarries⟩

end Session

end LintGate
