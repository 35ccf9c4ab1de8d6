import LintGate.Proofs.Gate
import LintGate.Proofs.Json.Members

/-!
# The gate — the programs it launches

* `Workspace.mem_of_launch`: a program that is launched is one that the workspace has, and may be
  executed.
* `Workspace.find_of_place`: a program that is listed by a path is found by every path to its place,
  absolute or not, that leads through directories.  Those on the way to it and to the project are
  there (`Workspace.spot_of_leads`), so it is found under its own name (`Workspace.find_of_listed`).
* `Gate.run_launches`: a run of the gate launches its linter, once, and the announcer at most once,
  after the linter has ended.  Whether the announcer can be launched makes no difference to how the
  run ends and to what it writes.
-/

namespace LintGate

open Json

namespace Workspace

variable {w : Workspace} {name listed : String} {args : List String} {p : Program} {q : Path}

/-! ### The program found -/

/-- The program that stands at a place is listed. -/
theorem mem_of_spot (h : w.spot q = .program listed p) : (listed, p) ∈ w.programs := by
  rw [spot] at h
  split at h
  next hfind =>
    cases h
    exact List.mem_of_find?_eq_some hfind
  · split at h
    · cases h
    · cases h
    · split at h <;> cases h

/-- The program that a walk ends at is listed. -/
theorem mem_of_walk {segments : List String} {place : Path}
    (h : w.walk place segments = .ok (.program listed p)) : (listed, p) ∈ w.programs := by
  induction segments generalizing place with
  | nil => exact mem_of_spot (Except.ok.inj h)
  | cons s ss ih =>
      rw [walk] at h
      cases hspot : w.spot place with
      | nothing => rw [hspot] at h; cases h
      | file => rw [hspot] at h; cases h
      | program n q => rw [hspot] at h; cases h
      | directory =>
          simp only [hspot] at h
          split_ifs at h
          exact ih h

/-- The program that is found is listed, under its own name unless that is a path, and may be
executed. -/
theorem mem_of_find (h : w.find name = .ok (listed, p)) :
    (listed, p) ∈ w.programs ∧ p.executable = true ∧ (isPath name = false → listed = name) := by
  rw [find] at h
  split_ifs at h with hempty hpath hlong hdot hsize
  · split at h
    · cases h
    next n q hwalk =>
      split_ifs at h with hexec
      cases h
      exact ⟨mem_of_walk hwalk, hexec, fun hno => absurd hpath (hno ▸ Bool.false_ne_true)⟩
    · cases h
    · cases h
  · split at h
    next q hget =>
      split_ifs at h with hexec
      cases h
      exact ⟨Members.mem_of_get? hget, hexec, fun _ => rfl⟩
    · cases h

/-- A program that is launched is listed, under its own name unless that is a path, and may be
executed. -/
theorem mem_of_launch (h : w.launch name args = .ok (listed, p)) :
    (listed, p) ∈ w.programs ∧ p.executable = true ∧ (isPath name = false → listed = name) := by
  rw [launch] at h
  split_ifs at h
  exact mem_of_find h

/-! ### A listed program is found -/

/-- A path can be walked to its end: neither it nor a name in it is too long, and it leads through
directories. -/
structure Passable (w : Workspace) (name : String) : Prop where
  size : name.utf8ByteSize < pathLimit
  names : ∀ s ∈ segmentsOf name, s.utf8ByteSize ≤ nameLimit
  way : ∀ q ∈ ((w.start name).stops (segmentsOf name)).dropLast, w.spot q = .directory

/-- A walk through directories arrives where its names lead. -/
theorem walk_eq {place : Path} {segments : List String}
    (hnames : ∀ s ∈ segments, s.utf8ByteSize ≤ nameLimit)
    (hway : ∀ q ∈ (place.stops segments).dropLast, w.spot q = .directory) :
    w.walk place segments = .ok (w.spot (segments.foldl Path.next place)) := by
  induction segments generalizing place with
  | nil => rfl
  | cons s ss ih =>
      have hne : (place.next s).stops ss ≠ [] := by cases ss <;> exact List.cons_ne_nil _ _
      rw [Path.stops, List.dropLast_cons_of_ne_nil hne, List.forall_mem_cons] at hway
      obtain ⟨hs, hss⟩ := List.forall_mem_cons.mp hnames
      rw [walk, hway.1]
      simp only [if_neg (Nat.not_lt.mpr hs)]
      exact ih hss hway.2

/-- What stands at the place of a listed program is that program, if no other is listed there. -/
theorem spot_of_listed (hmem : (listed, p) ∈ w.programs) (hplace : w.placeOf? listed = some q)
    (hone : ∀ e ∈ w.programs, w.placeOf? e.1 = some q → e = (listed, p)) :
    w.spot q = .program listed p := by
  cases hfind : w.programs.find? fun e => w.placeOf? e.1 == some q with
  | none =>
      have hno := List.find?_eq_none.mp hfind _ hmem
      simp [hplace] at hno
  | some e =>
      have he : e = (listed, p) :=
        hone e (List.mem_of_find?_eq_some hfind) (by simpa using List.find?_some hfind)
      rw [spot, hfind, he]

/-- What leads to the project, or along the path of a listed program, is a directory, unless a
program or a file of the project stands there. -/
theorem spot_of_leads (hleads : w.leads q = true)
    (hprogram : ∀ e ∈ w.programs, w.placeOf? e.1 ≠ some q)
    (hfile : ∀ content, w.nodeAt? q ≠ some (.file content)) : w.spot q = .directory := by
  have hnone : (w.programs.find? fun e => w.placeOf? e.1 == some q) = none :=
    List.find?_eq_none.mpr fun e he => by simpa using hprogram e he
  rw [spot, hnone]
  cases hnode : w.nodeAt? q with
  | none => simp only [hleads, if_true]
  | some n =>
      cases n with
      | file content => exact absurd hnode (hfile content)
      | directory es => rfl

/-- **A program is found by every path to its place**, from the project or from the topmost
directory, and through the directory above the project. -/
theorem find_of_place (hmem : (listed, p) ∈ w.programs) (hexec : p.executable = true)
    (hplace : w.placeOf? listed = some q)
    (hone : ∀ e ∈ w.programs, w.placeOf? e.1 = some q → e = (listed, p))
    (hname : w.placeOf? name = some q) (hpass : w.Passable name) :
    w.find name = .ok (listed, p) := by
  rw [placeOf?] at hname
  split_ifs at hname with hpath
  have hwalk : w.walk (w.start name) (segmentsOf name) = .ok (.program listed p) := by
    rw [walk_eq hpass.names hpass.way, Option.some.inj hname, spot_of_listed hmem hplace hone]
  have hne : name ≠ "" := by
    rintro rfl
    cases hpath
  rw [find, if_neg (by simpa using hne), if_pos hpath, if_neg (Nat.not_le.mpr hpass.size), hwalk]
  simp only [hexec, if_true]

/-- A program listed by a path is found under it, absolute or not, if nothing stands in the way. -/
theorem find_of_listed (hmem : (listed, p) ∈ w.programs) (hexec : p.executable = true)
    (hplace : w.placeOf? listed = some q)
    (hone : ∀ e ∈ w.programs, w.placeOf? e.1 = some q → e = (listed, p))
    (hsize : listed.utf8ByteSize < pathLimit)
    (hnames : ∀ s ∈ segmentsOf listed, s.utf8ByteSize ≤ nameLimit)
    (hfree : ∀ t ∈ ((w.start listed).stops (segmentsOf listed)).dropLast,
      (∀ e ∈ w.programs, w.placeOf? e.1 ≠ some t) ∧
        ∀ content, w.nodeAt? t ≠ some (.file content)) :
    w.find listed = .ok (listed, p) := by
  have hpath : isPath listed = true := by
    by_contra hno
    rw [placeOf?, if_neg hno] at hplace
    cases hplace
  refine find_of_place hmem hexec hplace hone hplace ⟨hsize, hnames, fun t ht => ?_⟩
  have hleads : w.leads t = true := by
    simp only [leads, Bool.or_eq_true, List.any_eq_true, Bool.and_eq_true]
    exact .inr ⟨_, hmem, hpath, t, List.dropLast_subset _ ht,
      List.isPrefixOf_iff_prefix.mpr List.prefix_rfl⟩
  exact spot_of_leads hleads (hfree t ht).1 (hfree t ht).2

/-- Programs inside and outside the project, by absolute paths and by paths that leave it. -/
example :
    let w : Workspace :=
      { root := "/p", files := .directory [], programs := [("bin/lint", {}), ("/opt/lint", {})] }
    ["bin/lint", "/p/bin/lint", "../p/bin/lint", "/opt/lint", "../opt/./lint", "opt/lint"].map
        (fun name => (w.find name).toOption.map Prod.fst) =
      [some "bin/lint", some "bin/lint", some "bin/lint", some "/opt/lint", some "/opt/lint",
        none] := by
  decide

/-! ### The calls of a launch -/

/-- The calls that launching a program comes to: one, or none if it cannot be launched. -/
def callsOf (w : Workspace) (name : String) (args : List String) : List (String × List String) :=
  match w.launch name args with
  | .ok (listed, _) => [(listed, args)]
  | .error _        => []

end Workspace

namespace Gate

/-! ### The calls of a report -/

theorem calls_program (w : Workspace) (name text : String) :
    (Announcer.program w name text).calls = w.callsOf name [text] := by
  rw [Announcer.program, Workspace.callsOf]
  cases w.launch name [text] with
  | ok found => rfl
  | error e => rfl

/-- Only a stop that is let pass launches anything. -/
theorem calls_report (w : Workspace) (name : String) (o : Options) (sink : Sink) (c : Captured) :
    (report o (.program w name) sink c).trace.calls =
      if Issue.ofOutput c.stdout = [] ∧ o.announce = true then
        w.callsOf name [o.announceText]
      else [] := by
  by_cases h : Issue.ofOutput c.stdout = []
  · rw [← Trace.calls_acts, acts_report_allow h]
    by_cases ho : o.announce = true
    · rw [if_pos ho, if_pos ⟨h, ho⟩, Trace.calls_acts, calls_program]
    · rw [if_neg ho, if_neg (fun hboth => ho hboth.2)]
      rfl
  · rw [if_neg (fun hboth => h hboth.1), (quiet_report h _ _ _).1]

/-! ### Whatever the announcer is -/

/-- How a report ends, and what it writes, is not up to the announcer. -/
theorem report_told (w w' : Workspace) (name name' : String) (o : Options) (sink : Sink)
    (c : Captured) :
    (report o (.program w' name') sink c).result = (report o (.program w name) sink c).result ∧
    (report o (.program w' name') sink c).trace.stdout =
      (report o (.program w name) sink c).trace.stdout := by
  refine ⟨result_report_eq _ _ _ _ sink c, ?_⟩
  by_cases h : Issue.ofOutput c.stdout = []
  · rw [stdout_report_allow h (stdout_program w' name'),
      stdout_report_allow h (stdout_program w name)]
  · rw [← Trace.stdout_acts, acts_report_eq h o o (.program w name), Trace.stdout_acts]

/-- The same of a run, if its linter is the same. -/
theorem run_told {w w' : Workspace} {o : Options}
    (h : w'.launch o.command.program o.command.args = w.launch o.command.program o.command.args)
    (name name' : String) (sink : Sink) :
    (run w' o (.program w' name') sink).result = (run w o (.program w name) sink).result ∧
    (run w' o (.program w' name') sink).trace.stdout =
      (run w o (.program w name) sink).trace.stdout := by
  cases hlaunch : w.launch o.command.program o.command.args with
  | error e =>
      rw [run_not_launched hlaunch, run_not_launched (h.trans hlaunch)]
      exact ⟨rfl, rfl⟩
  | ok found =>
      obtain ⟨listed, p⟩ := found
      obtain ⟨hresult, hstdout⟩ := report_told w w' name name' o sink p.captured
      rw [run_launched hlaunch, run_launched (h.trans hlaunch)]
      simp only [Trace.stdout_append]
      exact ⟨hresult, congrArg _ hstdout⟩

/-- **The programs a run launches.**  If the linter cannot be launched, the run fails and names it;
nothing is written, launched or announced.  Otherwise the linter is launched, with its arguments,
and ends; only then is anything else done, and of that the announcer, with the text as its one
argument, is all that is launched: exactly if there are no issues, the success is to be announced,
and the announcer can be launched.  How the run ends and what it writes is the same with any
announcer, there or not. -/
theorem run_launches (w : Workspace) (o : Options) (name : String) (sink : Sink) :
    let linter := o.command
    let done := run w o (.program w name) sink
    (∀ e, w.launch linter.program linter.args = .error e →
      done.result = .error (.launch linter.program e) ∧ done.trace.stdout = "" ∧
      done.trace.calls = [] ∧ done.trace.announcements = []) ∧
    (∀ listed p, w.launch linter.program linter.args = .ok (listed, p) →
      ((listed, p) ∈ w.programs ∧ p.executable = true ∧
        (isPath linter.program = false → listed = linter.program)) ∧
      ∃ after : Trace,
        done.trace = [.noted (.running linter.display), .launched listed linter.args,
          .noted (.finished p.captured.status p.captured.stdout.utf8ByteSize
            p.captured.stderr.utf8ByteSize)] ++ after ∧
        after.calls =
          if Issue.ofOutput p.captured.stdout = [] ∧ o.announce = true then
            w.callsOf name [o.announceText]
          else []) ∧
    ∀ (w' : Workspace) (name' : String),
      w'.launch linter.program linter.args = w.launch linter.program linter.args →
      (run w' o (.program w' name') sink).result = done.result ∧
      (run w' o (.program w' name') sink).trace.stdout = done.trace.stdout := by
  intro linter done
  refine ⟨?_, ?_, fun w' name' hsame => run_told hsame name name' sink⟩
  · intro e he
    have hdone : done = _ := run_not_launched he _ sink
    rw [hdone]
    exact ⟨rfl, rfl, rfl, rfl⟩
  · intro listed p hp
    refine ⟨Workspace.mem_of_launch hp, (report o (.program w name) sink p.captured).trace, ?_,
      calls_report w name o sink p.captured⟩
    exact congrArg Outcome.trace (run_launched hp _ sink)

/-- A linter outside the project that announces its own success, by a path that leaves the project:
it is launched twice, and a run whose announcer is not there ends the same. -/
theorem run_launches_linter_twice :
    let w : Workspace :=
      { root := "/p", files := .directory [], programs := [("/opt/lint", { stdout := [0x20] })] }
    let o : Options :=
      { command := ⟨"/opt/lint", ["-q"]⟩, announce := true, announceText := "done" }
    let done := run w o (.program w "../opt/lint") .working
    done.trace.calls = [("/opt/lint", ["-q"]), ("/opt/lint", ["done"])] ∧
    (run w o (.program w "say") .working).result = done.result := by
  intro w o done
  have hlaunch : w.launch "/opt/lint" ["-q"] = .ok ("/opt/lint", { stdout := [0x20] }) := by
    simp only [w]
    rfl
  obtain ⟨-, hlaunched, hsame⟩ := run_launches w o "../opt/lint" .working
  obtain ⟨-, after, htrace, hcalls⟩ := hlaunched _ _ hlaunch
  have hissues : Issue.ofOutput (Program.captured { stdout := [0x20] }).stdout = [] := by decide
  have hagain : w.callsOf "../opt/lint" ["done"] = [("/opt/lint", ["done"])] := by
    simp only [w]
    rfl
  rw [if_pos ⟨hissues, rfl⟩] at hcalls
  refine ⟨?_, (hsame w "say" rfl).1⟩
  rw [show done.trace = _ from htrace, Trace.calls_append, hcalls, hagain]
  rfl

end Gate

end LintGate
