import LintGate.Proofs.CommandLine.Request
import LintGate.Proofs.HookContract
import LintGate.Proofs.RunContract

/-!
# Sessions — diagnostics

Two variables are there for a person who looks into what happens: the filter of the journal, and the
one that turns the echo on.  They say which remarks are made, so two sessions that differ in these
variables alone show the same exit codes, outputs, launches and files at every call
(`Session.steps_diagnostics`).

The two sessions go in lockstep.  A call is read as the same request but for the echo
(`Request.alike_parse`), a run of the gate does the same acts with the echo on and off
(`Gate.alike_run`), and so the next call finds the same files.
-/

namespace LintGate

open CommandLine

/-! ### The gate -/

/-- Two outcomes are the same but for remarks. -/
structure Outcome.Alike {ε α : Type} (o o' : Outcome ε α) : Prop where
  result : o'.result = o.result
  acts : o'.trace.acts = o.trace.acts

namespace Gate

/-- A report does the same with the echo on and off. -/
theorem alike_report (o : Options) (verbose : Bool) (a : Announcer) (sink : Sink) (c : Captured) :
    (report o a sink c).Alike (report { o with verbose := verbose } a sink c) := by
  refine ⟨result_report_eq _ _ _ _ sink c, ?_⟩
  by_cases h : Issue.ofOutput c.stdout = []
  · rw [acts_report_allow h, acts_report_allow h]
  · exact acts_report_eq h _ _ _ _ sink

/-- A run does the same with the echo on and off. -/
theorem alike_run (w : Workspace) (o : Options) (verbose : Bool) (a : Announcer) (sink : Sink) :
    (run w o a sink).Alike (run w { o with verbose := verbose } a sink) := by
  cases h : w.launch o.command.program o.command.args with
  | error e =>
      rw [run_not_launched h, run_not_launched (o := { o with verbose := verbose }) h]
      exact ⟨rfl, rfl⟩
  | ok found =>
      obtain ⟨listed, p⟩ := found
      obtain ⟨hresult, hacts⟩ := alike_report o verbose a sink p.captured
      rw [run_launched h, run_launched (o := { o with verbose := verbose }) h]
      constructor
      · simp only [hresult]
      · simp only [Trace.acts_append, hacts]

end Gate

/-! ### Reading a command line -/

namespace CommandLine

/-- `env'` is `env` but for the filter of the journal and the variable of the echo, which holds a
text. -/
structure Environment.Alike (env env' : Environment) : Prop where
  announce : env'.announce = env.announce
  program : env'.program = env.program
  text : env'.text = env.text
  verbose : Environment.HoldsText env'.verbose

/-- The options of a run are the same under alike variables, but for the echo. -/
theorem RunArgs.alike_ofLayers {env env' : Environment} (h : env.Alike env') {g : Given}
    {a : RunArgs} (ha : RunArgs.ofLayers env g = .ok a) :
    ∃ verbose, RunArgs.ofLayers env' g = .ok { a with verbose := verbose } := by
  obtain ⟨announce, hannounce, ha⟩ := Json.exists_of_bind ha
  obtain ⟨program, hprogram, ha⟩ := Json.exists_of_bind ha
  obtain ⟨text, htext, ha⟩ := Json.exists_of_bind ha
  obtain ⟨verbose, -, ha⟩ := Json.exists_of_bind ha
  cases ha
  obtain ⟨verbose', hverbose⟩ := Environment.exists_switch h.verbose g.verbose
  refine ⟨verbose', ?_⟩
  rw [RunArgs.ofLayers, h.announce, h.program, h.text, hannounce, hprogram, htext, hverbose]
  rfl

namespace Request

/-- Two requests ask for the same, but for the echo. -/
inductive Alike : Request → Request → Prop where
  | unnamed (a : RunArgs) (verbose : Bool) :
      Alike ⟨a, none⟩ ⟨{ a with verbose := verbose }, none⟩
  | run (top top' a : RunArgs) (verbose : Bool) :
      Alike ⟨top, some (.run a)⟩ ⟨top', some (.run { a with verbose := verbose })⟩
  | hook (top top' : RunArgs) (action : HookAction) :
      Alike ⟨top, some (.hook action)⟩ ⟨top', some (.hook action)⟩

/-- A line that can be read asks for the same under alike variables, but for the echo. -/
theorem alike_parse {env env' : Environment} (h : env.Alike env') {ws : List Word} {r : Request}
    (hr : parse env ws = .ok r) : ∃ r', parse env' ws = .ok r' ∧ r.Alike r' := by
  simp only [parse_eq_ok_iff] at hr ⊢
  cases hr with
  | @unnamed g a hfirst hgiven hargs =>
      obtain ⟨verbose, hargs'⟩ := RunArgs.alike_ofLayers h hargs
      exact ⟨_, .unnamed hfirst hgiven hargs', .unnamed a verbose⟩
  | @run g a top hfirst hgiven hargs htop =>
      obtain ⟨verbose, hargs'⟩ := RunArgs.alike_ofLayers h hargs
      obtain ⟨verboseTop, htop'⟩ := RunArgs.alike_ofLayers h htop
      exact ⟨_, .run hfirst hgiven hargs' htop', .run top _ a verbose⟩
  | @hook action top hfirst haction htop =>
      obtain ⟨verboseTop, htop'⟩ := RunArgs.alike_ofLayers h htop
      exact ⟨_, .hook hfirst haction htop', .hook top _ action⟩

end Request

end CommandLine

/-! ### Calls -/

/-- Two answers are the same but for the error output. -/
structure Answer.Alike (x y : Answer) : Prop where
  exitCode : y.exitCode = x.exitCode
  stdout : y.stdout = x.stdout
  calls : y.calls = x.calls
  files : y.files = x.files

namespace Session

/-- Outcomes that are the same but for remarks are seen alike under any filters. -/
theorem alike_seen {ε : Type} {o o' : Outcome ε ExitCode} (h : o.Alike o') (report : ε → String)
    (stamp stamp' : Stamp) (f f' : Filter) (files : Node) :
    (seen report stamp f o files).Alike (seen report stamp' f' o' files) := by
  obtain ⟨trace, result⟩ := o
  obtain ⟨trace', result'⟩ := o'
  obtain ⟨rfl, hacts⟩ := h
  constructor
  · rfl
  · change trace'.stdout = trace.stdout
    rw [← Trace.stdout_acts, hacts, Trace.stdout_acts]
  · change trace'.calls = trace.calls
    rw [← Trace.calls_acts, hacts, Trace.calls_acts]
  · rfl

variable {env env' : Environment} {ws : List Word}

/-- **One call.**  A call that can be read is answered alike with other diagnostics. -/
theorem alike_step (h : env.Alike env') (hread : ∃ r, Request.parse env ws = .ok r)
    (stamp stamp' : Stamp) (reader reader' : Filter.Reader) (w : Workspace) :
    (step stamp env ws w reader).Alike (step stamp' env' ws w reader') := by
  obtain ⟨r, hr⟩ := hread
  obtain ⟨r', hr', halike⟩ := Request.alike_parse h hr
  rw [step, hr, step, hr']
  cases halike with
  | unnamed a verbose => exact alike_seen (Gate.alike_run w _ verbose _ _) _ _ _ _ _ _
  | run top top' a verbose => exact alike_seen (Gate.alike_run w _ verbose _ _) _ _ _ _ _ _
  | hook top top' action => exact alike_seen ⟨rfl, rfl⟩ _ _ _ _ _ _

/-- **Diagnostics do not interfere.**  Two sessions in one project, whose calls can be read and
differ at most in the filter of the journal and in the variable of the echo, show the same at every
call: exit code, output, programs launched with their arguments, and files.  What reads the filter
may make anything of what the variable holds. -/
theorem steps_diagnostics (stamp stamp' : Stamp) (reader reader' : Filter.Reader) (w : Workspace)
    {calls calls' : List (Environment × List Word)}
    (h : List.Forall₂ (fun c c' => c.1.Alike c'.1 ∧ c'.2 = c.2) calls calls')
    (hread : ∀ c ∈ calls, ∃ r, Request.parse c.1 c.2 = .ok r) :
    List.Forall₂ Answer.Alike (steps stamp w calls reader) (steps stamp' w calls' reader') := by
  induction h generalizing w with
  | nil => exact .nil
  | @cons c c' cs cs' hc _ ih =>
      obtain ⟨env, ws⟩ := c
      obtain ⟨env', ws'⟩ := c'
      obtain ⟨henv, rfl⟩ := hc
      obtain ⟨hfirst, hrest⟩ := List.forall_mem_cons.mp hread
      have hstep := alike_step henv hfirst stamp stamp' reader reader' w
      refine .cons hstep ?_
      -- the first calls leave the same files, and the sessions go on in these
      rw [hstep.files]
      exact ih _ hrest

/-- The hook is installed and a stop is held back, once with the echo on and a filter that is no
text, and once with neither. -/
theorem steps_diagnostics_loud :
    let w : Workspace :=
      { root := "/p", files := .directory [], programs := [("npx", { stdout := [0x61] })] }
    let install := ["hook", "-i"].map Word.spelling
    let run := ["run", "--announce"].map Word.spelling
    let loud : Environment := { log := some [0xFF], verbose := some (Word.spelling "1") }
    let quiet : Environment := { log := some (Word.spelling "off") }
    List.Forall₂ Answer.Alike
      (steps ⟨"12:00", "7"⟩ w [(loud, install), (loud, run)] Directive.reader)
      (steps ⟨"12:01", "8"⟩ w [(quiet, install), (quiet, run)] Directive.reader) ∧
    (steps ⟨"12:01", "8"⟩ w [(quiet, install), (quiet, run)] Directive.reader).map
      Answer.exitCode = [0, 2] := by
  intro w install run loud quiet
  have halike : loud.Alike quiet := ⟨rfl, rfl, rfl, nofun⟩
  have hinstall : ∃ r, Request.parse loud install = .ok r :=
    ⟨⟨⟨false, "say", "Bonzai burn complete", true, []⟩, some (.hook .install)⟩, by decide⟩
  have hrun : ∃ r, Request.parse loud run = .ok r :=
    ⟨⟨⟨false, "say", "Bonzai burn complete", true, []⟩,
      some (.run ⟨true, "say", "Bonzai burn complete", true, []⟩)⟩, by decide⟩
  refine ⟨steps_diagnostics _ _ _ _ w ?_ ?_, rfl⟩
  · exact .cons ⟨halike, rfl⟩ (.cons ⟨halike, rfl⟩ .nil)
  · exact List.forall_mem_cons.mpr ⟨hinstall, List.forall_mem_singleton.mpr hrun⟩

end Session

end LintGate
