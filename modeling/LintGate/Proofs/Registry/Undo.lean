import LintGate.Proofs.Registry.Effect

/-!
# The registry — removing undoes installing

Removing a command right after it was installed leaves the settings there were, except that an empty
array of stop entries, and hooks with nothing in them, are gone (`prune`).  Installing it once more
gives the same settings again; only the places of the two containers may differ, when they had to be
made anew.
-/

namespace LintGate.Registry

open Json

variable {r : Registry} {c : String}

/-! ### Empty containers -/

/-- The hooks without an empty array of stop entries. -/
def pruneStop (hs : Members) : Members :=
  match Members.get? "Stop" hs with
  | some (.array []) => Members.erase "Stop" hs
  | _                => hs

/-- The settings without an empty array of stop entries, and then without empty hooks. -/
def prune (r : Registry) : Registry :=
  match Members.get? "hooks" r.root with
  | some (.object hs) => r.withHooks (pruneStop hs)
  | _                 => r

theorem pruneStop_of_ne {hs : Members} (h : Members.get? "Stop" hs ≠ some (.array [])) :
    pruneStop hs = hs := by
  rw [pruneStop]
  split
  next hstop => exact absurd hstop h
  · rfl

/-- Without empty containers there is nothing to prune. -/
theorem prune_of_ne (hstop : r.entries? ≠ some [])
    (hhooks : Members.get? "hooks" r.root ≠ some (.object [])) : r.prune = r := by
  rw [prune]
  split
  next hs hget =>
    have hr : r.hooks = hs := by rw [hooks, hget]
    have hne : hs ≠ [] := by
      rintro rfl
      exact hhooks hget
    have hkeep : pruneStop hs = hs := by
      refine pruneStop_of_ne ?_
      intro hempty
      rw [entries?_eq, hr, hempty] at hstop
      exact hstop rfl
    rw [hkeep, withHooks, if_neg (by simpa using hne), Members.put_of_get? hget]
  · rfl

/-- Pruning puts in the entries that are there. -/
theorem prune_eq_setEntries (h : r.Open) : r.prune = r.setEntries r.entries := by
  rw [prune, setEntries]
  split
  next hs hget =>
    have hr : r.hooks = hs := by rw [hooks, hget]
    have hwith : withEntries r.hooks r.entries = pruneStop hs := by
      rw [pruneStop, entries, entries?_eq, hr]
      cases hstop : Members.get? "Stop" hs with
      | none => exact Members.erase_of_not_mem (Members.get?_eq_none_iff.mp hstop)
      | some v =>
          obtain ⟨es, rfl⟩ := h.stop v (hr ▸ hstop)
          cases es with
          | nil => rfl
          | cons e es => exact Members.put_of_get? hstop
    rw [hwith]
  next hno =>
    -- without an object for hooks there are none at all
    have habsent : Members.get? "hooks" r.root = none := by
      cases hget : Members.get? "hooks" r.root with
      | none => rfl
      | some v =>
          obtain ⟨hs, rfl⟩ := h.hooks v hget
          exact absurd hget (hno hs)
    have hnil : r.hooks = [] := by rw [hooks, habsent]
    rw [entries, entries?_eq, hnil]
    exact congrArg Registry.mk
      (Members.erase_of_not_mem (Members.get?_eq_none_iff.mp habsent)).symm

/-! ### One change after the other -/

/-- Entries put in over others are all that is seen of the two. -/
theorem setEntries_setEntries {es : List Value} (h : r.Open) (hne : es ≠ []) (es' : List Value) :
    (r.setEntries es).setEntries es' = r.setEntries es' := by
  have hhooks : (r.setEntries es).hooks = Members.put "Stop" (.array es) r.hooks := by
    rw [hooks_setEntries h.root, withEntries, if_neg (by simpa using hne)]
  have hwith : withEntries (Members.put "Stop" (.array es) r.hooks) es' =
      withEntries r.hooks es' := by
    rw [withEntries, Members.erase_put, Members.put_put]
    rfl
  rw [setEntries, hhooks, hwith, setEntries_of_ne_nil hne, withHooks, Members.erase_put,
    Members.put_put]
  rfl

/-- Installing a new command and removing it again puts in the entries that were there. -/
theorem uninstall_of_install (h : r.Open) (hnew : r.has c = false) :
    (r.install c).2.uninstall c = (true, r.setEntries r.entries) := by
  have hne : r.entries ++ [entryFor c] ≠ [] := by simp
  have hentries := entries_setEntries h (r.entries ++ [entryFor c])
  have hhas : (r.setEntries (r.entries ++ [entryFor c])).has c = true := by
    rw [has_setEntries h, any_runs_append_entryFor]
  have hkept : (r.entries ++ [entryFor c]).filter (fun e => !runs c e) = r.entries := by
    rw [List.filter_append, filter_of_not_any (has_eq c r ▸ hnew)]
    simp [runs_entryFor]
  have hdo : (r.install c).2 = r.setEntries (r.entries ++ [entryFor c]) := by
    rw [install_of_open h, hnew, if_neg Bool.false_ne_true]
  rw [hdo, uninstall_eq, hhas, if_pos rfl, hentries, hkept, setEntries_setEntries h hne]

/-! ### The same settings again -/

/-- Whatever entries were there before, with the same ones put in the settings are the same. -/
theorem same_setEntries {es es' : List Value} (h : (Value.object r.root).NamedOnce)
    (hes : ∀ e ∈ es, e.NamedOnce) (hes' : ∀ e ∈ es', e.NamedOnce) (hne : es' ≠ []) :
    ((r.setEntries es).setEntries es').same (r.setEntries es') = true := by
  have hnamed : (Value.object (r.setEntries es).root).NamedOnce :=
    inherited_setEntries (d := 0) Value.inherited_namedOnce h hes
  have hstop : Members.others "Stop" (r.setEntries es).hooks = Members.others "Stop" r.hooks := by
    rw [hooks_setEntries h.distinct, others_withEntries]
  rw [setEntries_of_ne_nil hne, setEntries_of_ne_nil (r := r) hne]
  refine Value.same_put hnamed h.distinct (others_withHooks r _) ?_
  exact Value.same_put (namedOnce_hooks hnamed) (namedOnce_hooks h).distinct hstop
    (Value.same_refl (.array hes'))

/-- **Removing undoes installing**, up to empty containers, for any settings that name each member
once.  A command that was not registered and can be installed is found when it is removed, and what
is left are the settings from before, members in their order, without an empty array of stop entries
and without empty hooks; if there were none of these, nothing has changed.  Installing it once more
gives the same settings as the first time. -/
theorem uninstall_install (h : (Value.object r.root).NamedOnce) (hnew : r.has c = false)
    {done : Bool} (hok : (r.install c).1 = .ok done) :
    (r.install c).2.uninstall c = (true, r.prune) ∧
    (r.entries? ≠ some [] → Members.get? "hooks" r.root ≠ some (.object []) → r.prune = r) ∧
    (r.prune.install c).1 = .ok true ∧
    (r.prune.install c).2.same (r.install c).2 = true := by
  have hopen : r.Open := open_of_install h hok
  have hprune := prune_eq_setEntries hopen
  have hagain : r.prune.has c = false := by
    rw [has_eq, hprune, entries_setEntries hopen, ← has_eq, hnew]
  have hinstall := install_of_open (hopen.setEntries r.entries) c
  rw [← hprune, hagain, if_neg Bool.false_ne_true, hprune, entries_setEntries hopen, ← hprune]
    at hinstall
  refine ⟨?_, prune_of_ne, ?_, ?_⟩
  · rw [uninstall_of_install hopen hnew, hprune]
  · rw [hinstall]
  · rw [hinstall, install_of_open hopen, hnew, if_neg Bool.false_ne_true, hprune]
    have hentries : ∀ e ∈ r.entries, e.NamedOnce :=
      inherited_entries (d := 0) Value.inherited_namedOnce h
    refine same_setEntries h hentries ?_ (by simp)
    intro e he
    rcases List.mem_append.mp he with he | he
    · exact hentries e he
    · exact List.mem_singleton.mp he ▸ namedOnce_entryFor c

/-- An empty array of stop entries before the entries of another event: the removal takes the array
out, the hooks stay, and the array comes back behind the other one. -/
theorem uninstall_install_empty_stop :
    let r : Registry := ⟨[("hooks", .object [("Stop", .array []), ("PreToolUse", .array [])]),
      ("model", .string "m")]⟩
    (r.install "a").2.uninstall "a" =
      (true, ⟨[("hooks", .object [("PreToolUse", .array [])]), ("model", .string "m")]⟩) ∧
    (r.prune.install "a").2.same (r.install "a").2 = true := by
  intro r
  have hnamed : (Value.object r.root).NamedOnce := by
    refine .object (by decide : ["hooks", "model"].Nodup) ?_
    intro m hm
    rcases List.mem_pair.mp hm with rfl | rfl
    · refine .object (by decide : ["Stop", "PreToolUse"].Nodup) ?_
      intro m hm
      rcases List.mem_pair.mp hm with rfl | rfl
      · exact .array fun v hv => absurd hv List.not_mem_nil
      · exact .array fun v hv => absurd hv List.not_mem_nil
    · exact .string _
  obtain ⟨hundo, -, -, hsame⟩ := uninstall_install hnamed (c := "a") rfl rfl
  exact ⟨hundo, hsame⟩

end LintGate.Registry
