import LintGate.Proofs.Registry.Effect

/-!
# The registry — the contract of one change

What stands in the settings decides what an installation answers, and unless it puts in an entry it
leaves them as they were, containers made on the way included; the entry it puts in stands behind
the others, and all that was there keeps its place (`install_decides`).  A removal takes out the
entries that run the command and the containers it empties, and nothing else (`uninstall_removes`).
-/

namespace LintGate.Registry

open Json

variable {r : Registry} {c : String} {es : List Value}

/-! ### Entries put in -/

theorem hooks_setEntries_of_ne_nil (h : es ≠ []) :
    (r.setEntries es).hooks = Members.put "Stop" (.array es) r.hooks := by
  refine hooks_eq ?_
  rw [setEntries_of_ne_nil h, Members.get?_put_self, Option.getD_some]

theorem entries_setEntries_of_ne_nil (h : es ≠ []) : (r.setEntries es).entries = es := by
  refine entries_eq ?_
  rw [hooks_setEntries_of_ne_nil h, Members.get?_put_self, Option.getD_some]

/-! ### Installing -/

/-- A command is there exactly if there is an entry that runs it. -/
theorem has_iff (c : String) (r : Registry) :
    r.has c = true ↔ ∃ e ∈ r.entries, runs c e = true := by
  rw [has_eq, List.any_eq_true]

/-- With a new entry for a command the settings have that command, and the others as before. -/
theorem has_setEntries_append (c d : String) (r : Registry) :
    (r.setEntries (r.entries ++ [entryFor c])).has d = true ↔ r.has d = true ∨ d = c := by
  rw [has_eq, entries_setEntries_of_ne_nil (by simp), List.any_append, Bool.or_eq_true, ← has_eq,
    List.any_cons, List.any_nil, Bool.or_false, runs_entryFor, beq_iff_eq, eq_comm (a := c)]

/-- **What installing decides**, for any settings and any command.  If an entry runs the command,
there is nothing to do; if something else than an object stands for the hooks, or something else
than an array for the stop entries, that part is refused; and otherwise the command is installed.
Only then are the settings changed.  The new entry stands behind the old ones; hooks and stop
entries keep their places if they had one, and come last in theirs if not; the other members stay
as they are; and no other command is registered by it, nor any removed. -/
theorem install_decides (c : String) (r : Registry) :
    ((r.install c).1 = .ok false ↔ ∃ e ∈ r.entries, runs c e = true) ∧
    (∀ m, (r.install c).1 = .error m ↔ r.Blocked m) ∧
    ((r.install c).1 = .ok true ↔
      (¬ ∃ e ∈ r.entries, runs c e = true) ∧ ∀ m, ¬ r.Blocked m) ∧
    ((r.install c).1 ≠ .ok true → (r.install c).2 = r) ∧
    ((r.install c).1 = .ok true →
      let q := (r.install c).2
      Members.get? "hooks" q.root = some (.object q.hooks) ∧
      Members.get? "Stop" q.hooks = some (.array (r.entries ++ [entryFor c])) ∧
      Members.keys q.root = (if "hooks" ∈ Members.keys r.root then Members.keys r.root
        else Members.keys r.root ++ ["hooks"]) ∧
      Members.keys q.hooks = (if "Stop" ∈ Members.keys r.hooks then Members.keys r.hooks
        else Members.keys r.hooks ++ ["Stop"]) ∧
      Members.others "hooks" q.root = Members.others "hooks" r.root ∧
      Members.others "Stop" q.hooks = Members.others "Stop" r.hooks ∧
      ∀ d, q.has d = true ↔ r.has d = true ∨ d = c) := by
  rw [← has_iff]
  refine ⟨install_ok_false_iff, fun m => install_error_iff, install_ok_true_iff, ?_, ?_⟩
  · intro hok
    rcases install_cases c r with ⟨-, hdo⟩ | ⟨-, hdo⟩ | ⟨m, hdo, -⟩
    · rw [hdo]
    · exact absurd (congrArg Prod.fst hdo) hok
    · rw [hdo]
  · intro hok q
    obtain ⟨hnew, hfree⟩ := install_ok_true_iff.mp hok
    have hne : r.entries ++ [entryFor c] ≠ [] := by simp
    have hq : q = r.setEntries (r.entries ++ [entryFor c]) :=
      congrArg Prod.snd (install_of_free (Bool.eq_false_iff.mpr hnew) hfree)
    have hhooks : q.hooks = Members.put "Stop" (.array (r.entries ++ [entryFor c])) r.hooks :=
      hq ▸ hooks_setEntries_of_ne_nil hne
    have hroot : q.root = Members.put "hooks" (.object q.hooks) r.root := by
      rw [hhooks, hq, setEntries_of_ne_nil hne]
    refine ⟨?_, ?_, ?_, ?_, ?_, ?_, ?_⟩
    · rw [hroot, Members.get?_put_self]
    · rw [hhooks, Members.get?_put_self]
    · rw [hroot, Members.keys_put]
    · rw [hhooks, Members.keys_put]
    · rw [hroot, Members.others_put]
    · rw [hhooks, Members.others_put]
    · intro d
      rw [hq, has_setEntries_append]

/-- What is not an array is refused in the place of the stop entries, and stays; hooks without stop
entries get them behind what is there, and keep their own place. -/
theorem install_decides_stop_null :
    let r : Registry := ⟨[("hooks", .object [("Stop", .null)])]⟩
    let q : Registry := ⟨[("hooks", .object [("x", .null)]), ("y", .null)]⟩
    ((r.install "a").1 = .error .stop ∧ (r.install "a").2 = r) ∧
    (q.install "a").1 = .ok true ∧
    Members.keys (q.install "a").2.root = ["hooks", "y"] ∧
    Members.keys (q.install "a").2.hooks = ["x", "Stop"] ∧ (q.install "a").2.has "a" = true := by
  intro r q
  obtain ⟨-, herror, -, hkept, -⟩ := install_decides "a" r
  have hrefused : (r.install "a").1 = .error .stop :=
    (herror .stop).mpr ⟨_, .null, rfl, rfl, fun _ h => nomatch h⟩
  have hok : (q.install "a").1 = .ok true := rfl
  obtain ⟨-, -, -, -, hinstalled⟩ := install_decides "a" q
  obtain ⟨-, -, hroot, hhooks, -, -, hhas⟩ := hinstalled hok
  exact ⟨⟨hrefused, hkept (by simp [hrefused])⟩, hok, hroot, hhooks, (hhas "a").mpr (.inr rfl)⟩

/-! ### Removing -/

/-- Nothing is left of the hooks if no entry is left and there was nothing else. -/
theorem withEntries_eq_nil_iff {hs : Members} (h : Members.Distinct hs) (es : List Value) :
    withEntries hs es = [] ↔ es = [] ∧ Members.others "Stop" hs = [] := by
  rw [withEntries]
  split
  next hnil =>
    rw [Members.erase_eq_others h]
    exact (and_iff_right (List.isEmpty_iff.mp hnil)).symm
  next hne =>
    refine iff_of_false (put_ne_nil _ _ _) ?_
    rintro ⟨rfl, -⟩
    exact hne rfl

/-- New entries where there are some add no name to the hooks. -/
theorem keys_withEntries_sublist {hs : Members} (h : "Stop" ∈ Members.keys hs) (es : List Value) :
    (Members.keys (withEntries hs es)).Sublist (Members.keys hs) := by
  rw [withEntries]
  split
  · exact (Members.erase_sublist _ _).map Prod.fst
  · rw [Members.keys_put_of_mem h]

/-- New hooks where there are some add no name to the settings. -/
theorem keys_withHooks_sublist (h : "hooks" ∈ Members.keys r.root) (hs : Members) :
    (Members.keys (r.withHooks hs).root).Sublist (Members.keys r.root) := by
  rw [withHooks]
  split
  · exact (Members.erase_sublist _ _).map Prod.fst
  · rw [Members.keys_put_of_mem h]

/-- A registered command stands in hooks and stop entries that are there. -/
theorem mem_keys_of_has (h : r.has c = true) :
    "hooks" ∈ Members.keys r.root ∧ "Stop" ∈ Members.keys r.hooks := by
  obtain ⟨e, he, -⟩ := (has_iff c r).mp h
  obtain ⟨hs, es, hhooks, hstop, -⟩ := exists_of_mem_entries he
  have hr : r.hooks = hs := by rw [hooks, hhooks]
  exact ⟨Members.mem_keys_of_get? hhooks, hr ▸ Members.mem_keys_of_get? hstop⟩

/-- **What a removal takes out**, for any settings that name each member once.  It finds the command
if it is registered, and changes nothing if not.  Otherwise the entries that run it go and the
others stay, in their order; the stop entries go if there are none left, and the hooks if there is
then nothing else among them; all other members stay, and what is left keeps its order.  The command
is not registered any more, and another one still is if an entry that stays runs it. -/
theorem uninstall_removes (h : (Value.object r.root).NamedOnce) (c : String) :
    (r.uninstall c).1 = r.has c ∧
    (r.has c = false → (r.uninstall c).2 = r) ∧
    (r.has c = true →
      let q := (r.uninstall c).2
      let rest := r.entries.filter fun e => !runs c e
      q.entries = rest ∧
      (Members.get? "Stop" q.hooks = none ↔ rest = []) ∧
      (Members.get? "hooks" q.root = none ↔ rest = [] ∧ Members.others "Stop" r.hooks = []) ∧
      (∀ v, Members.get? "hooks" q.root = some v → v = .object q.hooks) ∧
      Members.others "hooks" q.root = Members.others "hooks" r.root ∧
      Members.others "Stop" q.hooks = Members.others "Stop" r.hooks ∧
      (Members.keys q.root).Sublist (Members.keys r.root) ∧
      (Members.keys q.hooks).Sublist (Members.keys r.hooks) ∧
      q.has c = false ∧
      ∀ d, q.has d = true ↔ ∃ e ∈ r.entries, runs d e = true ∧ runs c e = false) := by
  refine ⟨?_, ?_, ?_⟩
  · rw [uninstall_eq]
    split
    next hhas => exact hhas.symm
    next hhas => exact (Bool.eq_false_iff.mpr hhas).symm
  · intro hhas
    rw [uninstall_eq, hhas, if_neg Bool.false_ne_true]
  · intro hhas q rest
    have hopen := open_of_has h hhas
    obtain ⟨hroot, hstop⟩ := mem_keys_of_has hhas
    have hq : q = r.setEntries rest := by
      show (r.uninstall c).2 = _
      rw [uninstall_eq, if_pos hhas]
    have hhooks : q.hooks = withEntries r.hooks rest := hq ▸ hooks_setEntries hopen.root rest
    have hget : Members.get? "hooks" q.root =
        if (withEntries r.hooks rest).isEmpty then none else some (.object q.hooks) := by
      rw [hhooks, hq, setEntries, get?_withHooks hopen.root]
    refine ⟨?_, ?_, ?_, ?_, ?_, ?_, ?_, ?_, has_uninstall h c, ?_⟩
    · rw [hq, entries_setEntries hopen]
    · rw [hhooks, get?_withEntries hopen.named_once]
      simp
    · rw [hget, ← withEntries_eq_nil_iff hopen.named_once]
      simp
    · intro v hv
      rw [hget] at hv
      split at hv
      · cases hv
      · exact (Option.some.inj hv).symm
    · rw [hq, setEntries, others_withHooks]
    · rw [hhooks, others_withEntries]
    · rw [hq, setEntries]
      exact keys_withHooks_sublist hroot _
    · rw [hhooks]
      exact keys_withEntries_sublist hstop rest
    · intro d
      rw [hq, has_setEntries hopen, List.any_eq_true]
      simp [rest, and_assoc, and_comm]

/-- An entry of two commands goes with the one that is removed; an entry that is none stays, and so
does the other command, which has an entry of its own. -/
theorem uninstall_removes_shared_entry :
    let hook (c : String) : Value := .object [("command", .string c)]
    let shared : Value := .object [("hooks", .array [hook "a", hook "b"])]
    let r : Registry := ⟨[("hooks", .object [("Stop", .array [shared, .null, entryFor "b"])]),
      ("model", .string "m")]⟩
    (r.uninstall "a").1 = true ∧
    (r.uninstall "a").2.entries = [.null, entryFor "b"] ∧
    (r.uninstall "a").2.has "a" = false ∧ (r.uninstall "a").2.has "b" = true := by
  intro hook shared r
  have hhook (c : String) : (hook c).NamedOnce := .cons (by decide) (.string c) .nil
  have hhooks : (Value.array [hook "a", hook "b"]).NamedOnce :=
    .array (List.forall_mem_cons.mpr ⟨hhook "a", List.forall_mem_singleton.mpr (hhook "b")⟩)
  have hshared : shared.NamedOnce := .cons (by decide) hhooks .nil
  have hstop : (Value.array [shared, .null, entryFor "b"]).NamedOnce :=
    .array (List.forall_mem_cons.mpr ⟨hshared, List.forall_mem_cons.mpr
      ⟨.null, List.forall_mem_singleton.mpr (namedOnce_entryFor "b")⟩⟩)
  have hnamed : (Value.object r.root).NamedOnce :=
    .cons (by decide) (.cons (by decide) hstop .nil) (.cons (by decide) (.string "m") .nil)
  have hmem : entryFor "b" ∈ r.entries := .tail _ (.tail _ (.head _))
  obtain ⟨hfound, -, hgone⟩ := uninstall_removes hnamed "a"
  obtain ⟨hrest, -, -, -, -, -, -, -, ha, hb⟩ := hgone rfl
  exact ⟨hfound, hrest, ha, (hb "b").mpr ⟨_, hmem, rfl, rfl⟩⟩

end LintGate.Registry
