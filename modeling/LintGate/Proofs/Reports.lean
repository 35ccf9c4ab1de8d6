import LintGate.Proofs.Gate

/-!
# The gate — reports in a row

Several turns are reported on one after the other, and one recorder hears what they announce
(`Gate.reports`).  Each report ends as it would alone, and the recorder holds the texts of the turns
without issues that wanted one announced, in their order (`Gate.reports_exact`).  So a report that
fails, or that holds the stop back, is nowhere to be seen in the others.
-/

namespace LintGate

/-- A turn to report on. -/
structure Turn where
  /-- What is asked for. -/
  options : Options
  /-- What the linter left behind. -/
  captured : Captured
  /-- Where the payload goes. -/
  sink : Sink

namespace Turn

/-- The issues that were found. -/
def issues (t : Turn) : List String :=
  Issue.ofOutput t.captured.stdout

/-- The turn is without issues, and that is to be announced. -/
def announces (t : Turn) : Bool :=
  t.issues.isEmpty && t.options.announce

/-- The report on it, made to a recorder. -/
def report (t : Turn) : Outcome Failure ExitCode :=
  Gate.report t.options .recorder t.sink t.captured

/-- What there is to say of the report on a turn. -/
structure Ends (t : Turn) (o : Outcome Failure ExitCode) : Prop where
  /-- It fails exactly if there is a payload that cannot be written. -/
  fails_iff : ∀ f, o.result = .error f ↔
    t.issues ≠ [] ∧ ∃ e, t.sink = .broken e ∧ f = .system e
  /-- A payload that can be written is all that is written. -/
  blocks : t.issues ≠ [] → t.sink = .working → o.result = .ok .block ∧
    o.trace.stdout = (Payload.block t.issues).toJson ++ "\n"
  /-- Without issues the stop is let pass, wherever a payload would have gone. -/
  allows : t.issues = [] → o.result = .ok .allow ∧ o.trace.stdout = ""
  /-- Nothing is written where nothing can be. -/
  silent : t.sink ≠ .working → o.trace.stdout = ""
  /-- Only a stop that is let pass is announced. -/
  announced : o.trace.announcements = if t.announces then [t.options.announceText] else []

end Turn

namespace Gate

/-- Reports on turns one after the other, to a recorder that holds some texts: how each of them
ended, and what the recorder holds then. -/
def reports (recorded : List String) : List Turn → List (Outcome Failure ExitCode) × List String
  | []      => ([], recorded)
  | t :: ts =>
    let o := report t.options .recorder t.sink t.captured
    let rest := reports (recorded ++ o.trace.announcements) ts
    (o :: rest.1, rest.2)

/-! ### One report -/

theorem announces_of_issues {t : Turn} (h : t.issues ≠ []) : t.announces = false := by
  rw [Turn.announces, List.isEmpty_eq_false_iff.mpr h, Bool.false_and]

/-- A turn announces its text, if it announces. -/
theorem announcements_report (t : Turn) :
    t.report.trace.announcements = if t.announces then [t.options.announceText] else [] := by
  by_cases h : t.issues = []
  · rw [← Trace.announcements_acts, Turn.report, acts_report_allow h, Turn.announces, h]
    cases t.options.announce <;> rfl
  · rw [announces_of_issues h, Turn.report, (quiet_report h _ _ _).2]
    rfl

theorem stdout_recorder (text : String) : (Announcer.recorder text).stdout = "" := rfl

/-- A turn ends as it should. -/
theorem ends_report (t : Turn) : t.Ends t.report := by
  obtain ⟨o, c, sink⟩ := t
  by_cases h : Issue.ofOutput c.stdout = []
  · have hresult := result_report_allow h o .recorder sink
    have hstdout := stdout_report_allow h (o := o) stdout_recorder sink
    exact
      { fails_iff := by simp [Turn.report, Turn.issues, hresult, h]
        blocks := fun hne => absurd h hne
        allows := fun _ => ⟨hresult, hstdout⟩
        silent := fun _ => hstdout
        announced := announcements_report _ }
  · cases sink with
    | working =>
        have hresult := result_report_block h o .recorder
        exact
          { fails_iff := by simp [Turn.report, hresult]
            blocks := fun _ _ => ⟨hresult, stdout_report_block h o .recorder⟩
            allows := fun hnil => absurd hnil h
            silent := fun hne => absurd rfl hne
            announced := announcements_report _ }
    | broken e =>
        have hresult := result_report_broken h o .recorder e
        exact
          { fails_iff := by simp [Turn.report, Turn.issues, hresult, h, eq_comm]
            blocks := fun _ => nofun
            allows := fun hnil => absurd hnil h
            silent := fun _ => stdout_report_broken h o .recorder e
            announced := announcements_report _ }

/-! ### Several reports -/

theorem reports_cons (recorded : List String) (t : Turn) (ts : List Turn) :
    reports recorded (t :: ts) =
      (t.report :: (reports (recorded ++ t.report.trace.announcements) ts).1,
        (reports (recorded ++ t.report.trace.announcements) ts).2) := rfl

/-- Each report ends as it would alone. -/
theorem outcomes_reports (recorded : List String) (ts : List Turn) :
    (reports recorded ts).1 = ts.map Turn.report := by
  induction ts generalizing recorded with
  | nil => rfl
  | cons t ts ih => rw [reports_cons, ih, List.map_cons]

/-- The recorder holds what was announced, in the order of the turns. -/
theorem recorded_reports (recorded : List String) (ts : List Turn) :
    (reports recorded ts).2 =
      recorded ++ (ts.filter Turn.announces).map fun t => t.options.announceText := by
  induction ts generalizing recorded with
  | nil => rw [reports, List.filter_nil, List.map_nil, List.append_nil]
  | cons t ts ih =>
      rw [reports_cons, ih, announcements_report, List.append_assoc]
      cases h : t.announces with
      | true => rw [List.filter_cons_of_pos h, if_pos rfl, List.map_cons, List.singleton_append]
      | false => rw [List.filter_cons_of_neg (by simp [h]), if_neg Bool.false_ne_true,
          List.nil_append]

/-- **Reports in a row.**  Whatever turns are reported on, and whatever the recorder held before:
each report ends as it would alone, and how that is is told by the turn's issues and by where its
payload goes.  To the recorder come the texts of the turns without issues that wanted one announced,
in the order of the turns.  A turn with issues can be left out: the other reports end the same, and
the recorder holds the same. -/
theorem reports_exact (recorded : List String) (ts : List Turn) :
    (reports recorded ts).1 = ts.map Turn.report ∧ (∀ t ∈ ts, t.Ends t.report) ∧
    (reports recorded ts).2 =
      recorded ++ (ts.filter Turn.announces).map (fun t => t.options.announceText) ∧
    ∀ before t after, ts = before ++ t :: after → t.issues ≠ [] →
      reports recorded (before ++ after) =
        ((reports recorded ts).1.eraseIdx before.length, (reports recorded ts).2) := by
  refine ⟨outcomes_reports recorded ts, fun t _ => ends_report t, recorded_reports recorded ts, ?_⟩
  rintro before t after rfl hne
  refine Prod.ext ?_ ?_
  · rw [outcomes_reports, outcomes_reports]
    simp [List.eraseIdx_append_of_length_le]
  · rw [recorded_reports, recorded_reports]
    simp [announces_of_issues hne]

/-- Four turns: the first is let pass although no payload could be written, the second has one that
cannot be, the third is held back.  The second can be left out. -/
theorem reports_exact_payload_lost :
    let hi : Turn := ⟨{ announce := true, announceText := "hi" }, { stdout := "\u2003\n" },
      .broken .denied⟩
    let lost : Turn := ⟨{ announce := true }, { stdout := "a" }, .broken .denied⟩
    let held : Turn := ⟨{ announce := true }, { stdout := " \"b\"\n" }, .working⟩
    let bye : Turn := ⟨{ announce := true, announceText := "bye" }, {}, .working⟩
    let done := reports [] [hi, lost, held, bye]
    done.2 = ["hi", "bye"] ∧ lost.report.result = .error (.system .denied) ∧
    held.report.result = .ok .block ∧
    reports [] [hi, held, bye] = (done.1.eraseIdx 1, ["hi", "bye"]) := by
  intro hi lost held bye done
  obtain ⟨-, hends, hrecorded, hleave⟩ := reports_exact [] [hi, lost, held, bye]
  have hlost : lost.issues = ["a"] := by decide
  have hheld : held.issues = ["\"b\""] := by decide
  have htexts : done.2 = ["hi", "bye"] := by
    refine hrecorded.trans ?_
    decide
  have hfails := ((hends lost (by simp)).fails_iff (.system .denied)).mpr
    ⟨hlost ▸ List.cons_ne_nil _ _, .denied, rfl, rfl⟩
  have hblocks := (hends held (by simp)).blocks (hheld ▸ List.cons_ne_nil _ _) rfl
  have hleft := hleave [hi] lost [held, bye] rfl (hlost ▸ List.cons_ne_nil _ _)
  exact ⟨htexts, hfails, hblocks.1, htexts ▸ hleft⟩

end Gate

end LintGate
