import LintGate.Proofs.Json.Same
import LintGate.Proofs.Registry.Reload

/-!
# The registry — what is registered afterwards

Settings that name each member once, at every level, are open if a command was installed in them or
removed from them.  So after an installation that did not fail the command is registered
(`has_install`), and after a removal it is not (`has_uninstall`).
-/

namespace LintGate.Registry

open Json

variable {r : Registry} {c : String}

/-! ### Members named once -/

/-- The hooks in settings that name nothing twice name nothing twice. -/
theorem namedOnce_hooks (h : (Value.object r.root).NamedOnce) :
    (Value.object r.hooks).NamedOnce :=
  inherited_hooks (d := 0) Value.inherited_namedOnce h

theorem namedOnce_entryFor (c : String) : (entryFor c).NamedOnce :=
  (sound_entryFor 0 c).namedOnce

theorem namedOnce_uninstall (h : (Value.object r.root).NamedOnce) (c : String) :
    (Value.object (r.uninstall c).2.root).NamedOnce :=
  inherited_uninstall (d := 0) Value.inherited_namedOnce h c

theorem namedOnce_entries (h : (Value.object r.root).NamedOnce) : ∀ e ∈ r.entries, e.NamedOnce :=
  inherited_entries (d := 0) Value.inherited_namedOnce h

/-! ### Settings that can take a stop hook -/

/-- Settings with nothing of the wrong kind in the way are open. -/
theorem open_of_not_blocked (h : (Value.object r.root).NamedOnce) (hfree : ∀ m, ¬ r.Blocked m) :
    r.Open where
  root := h.distinct
  hooks v hv := by
    have hhooks := getD_hooks (hfree .hooks)
    rw [hv] at hhooks
    exact ⟨_, hhooks⟩
  named_once := (namedOnce_hooks h).distinct
  stop v hv := by
    have hstop := getD_stop (hfree .stop)
    rw [hv] at hstop
    exact ⟨_, hstop⟩

/-- Settings in which a command can be installed are open. -/
theorem open_of_install (h : (Value.object r.root).NamedOnce) {done : Bool}
    (hok : (r.install c).1 = .ok done) : r.Open := by
  refine open_of_not_blocked h fun m hm => ?_
  rw [← install_error_iff (c := c), hok] at hm
  cases hm

/-- Settings with stop entries are open. -/
theorem open_of_entries (h : (Value.object r.root).NamedOnce) (hne : r.entries ≠ []) : r.Open :=
  open_of_not_blocked h fun _ hm => hne (entries_of_blocked hm)

/-- Settings that have a command are open. -/
theorem open_of_has (h : (Value.object r.root).NamedOnce) (hhas : r.has c = true) : r.Open := by
  refine open_of_entries h ?_
  intro hnil
  rw [has_eq, hnil] at hhas
  cases hhas

/-! ### What is registered -/

/-- What the settings have is said by their entries. -/
theorem has_setEntries (h : r.Open) (es : List Value) :
    (r.setEntries es).has c = es.any (runs c) := by
  rw [has_eq, entries_setEntries h]

theorem any_runs_append_entryFor (es : List Value) (c : String) :
    (es ++ [entryFor c]).any (runs c) = true := by
  simp [runs_entryFor]

/-- After a removal the command is not there. -/
theorem has_uninstall (h : (Value.object r.root).NamedOnce) (c : String) :
    (r.uninstall c).2.has c = false := by
  rw [uninstall_eq]
  split
  next hhas =>
    rw [has_setEntries (open_of_has h hhas)]
    simp
  next hhas => exact Bool.eq_false_iff.mpr hhas

end LintGate.Registry
