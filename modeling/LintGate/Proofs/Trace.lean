import LintGate.Trace

/-!
# Traces — acts and remarks

A note and an echo are *remarks*: they are written for a person, on the error output.  Whatever else
a run does is an *act*.  The output, the programs launched and the texts announced are those of the
acts alone (`stdout_acts`, `calls_acts`, `announcements_acts`), so two runs with the same acts
differ at most on the error output.
-/

namespace LintGate

/-- The event is a note or an echo. -/
def Event.isRemark : Event → Bool
  | .noted _ | .echoed _ => true
  | _                    => false

namespace Trace

/-- What a run does besides its remarks. -/
def acts (t : Trace) : Trace :=
  t.filter fun e => !e.isRemark

@[simp] theorem acts_nil : acts [] = [] := rfl

@[simp] theorem acts_append (t u : Trace) : acts (t ++ u) = acts t ++ acts u :=
  List.filter_append t u

@[simp] theorem acts_noted (n : Note) (t : Trace) : acts (.noted n :: t) = acts t := rfl

@[simp] theorem acts_echoed (s : String) (t : Trace) : acts (.echoed s :: t) = acts t := rfl

@[simp] theorem acts_printed (s : String) (t : Trace) :
    acts (.printed s :: t) = .printed s :: acts t := rfl

@[simp] theorem acts_launched (p : String) (args : List String) (t : Trace) :
    acts (.launched p args :: t) = .launched p args :: acts t := rfl

@[simp] theorem acts_announced (s : String) (t : Trace) :
    acts (.announced s :: t) = .announced s :: acts t := rfl

/-- What is read off a trace without regard to remarks is read off its acts. -/
theorem filterMap_acts {β : Type} {f : Event → Option β} (hnoted : ∀ n, f (.noted n) = none)
    (hechoed : ∀ s, f (.echoed s) = none) (t : Trace) : t.acts.filterMap f = t.filterMap f := by
  induction t with
  | nil => rfl
  | cons e t ih =>
      cases e with
      | noted n => rw [acts_noted, List.filterMap_cons_none (hnoted n), ih]
      | echoed s => rw [acts_echoed, List.filterMap_cons_none (hechoed s), ih]
      | printed s => rw [acts_printed, List.filterMap_cons, List.filterMap_cons, ih]
      | launched p args => rw [acts_launched, List.filterMap_cons, List.filterMap_cons, ih]
      | announced s => rw [acts_announced, List.filterMap_cons, List.filterMap_cons, ih]

/-- The acts write all that is written to the output. -/
theorem stdout_acts (t : Trace) : t.acts.stdout = t.stdout :=
  congrArg String.join (filterMap_acts (fun _ => rfl) (fun _ => rfl) t)

/-- The acts launch all that is launched. -/
theorem calls_acts (t : Trace) : t.acts.calls = t.calls :=
  filterMap_acts (fun _ => rfl) (fun _ => rfl) t

/-- The acts announce all that is announced. -/
theorem announcements_acts (t : Trace) : t.acts.announcements = t.announcements :=
  filterMap_acts (fun _ => rfl) (fun _ => rfl) t

theorem stdout_printed (s : String) : stdout [.printed s] = s := by
  simp [stdout]

end Trace

end LintGate
