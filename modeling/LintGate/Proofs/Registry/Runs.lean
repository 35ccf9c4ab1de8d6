import LintGate.Proofs.Registry.Steps

/-!
# The registry — runs of changes

Any number of commands are installed and removed, in any order.  On the stop entries a run does what
its changes do one after the other (`run_spec`); and what that comes to is read off the run: entries
that were there stay unless one of their commands was removed, and of the commands that were not
registered before, those stand behind them that were named by an install last
(`entriesAfter_eq`).
-/

namespace LintGate.Registry

open Json

/-! ### Changes -/

/-- A change of the registry. -/
inductive Change where
  | install (command : String)
  | uninstall (command : String)
  deriving DecidableEq, Repr

namespace Change

/-- The command it names. -/
def command : Change → String
  | .install c   => c
  | .uninstall c => c

/-- The command it removes, if it is one that does. -/
def removed? : Change → Option String
  | .install _   => none
  | .uninstall c => some c

/-- The settings after it. -/
def apply : Change → Registry → Registry
  | .install c, r   => (r.install c).2
  | .uninstall c, r => (r.uninstall c).2

/-- The stop entries after it. -/
def next : Change → List Value → List Value
  | .install c, es   => if es.any (runs c) then es else es ++ [entryFor c]
  | .uninstall c, es => es.filter fun e => !runs c e

end Change

/-- The settings after several changes. -/
def run (changes : List Change) (r : Registry) : Registry :=
  changes.foldl (fun r ch => ch.apply r) r

/-- The stop entries after several changes. -/
def entriesAfter (changes : List Change) (es : List Value) : List Value :=
  changes.foldl (fun es ch => ch.next es) es

/-- The last change that names `c` installs it. -/
def LastInstalls (c : String) (changes : List Change) : Prop :=
  (changes.filter fun ch => ch.command == c).getLast? = some (.install c)

/-- The entries that run none of the commands removed. -/
def kept (changes : List Change) (es : List Value) : List Value :=
  es.filter fun e => (changes.filterMap Change.removed?).all fun c => !runs c e

variable {r : Registry} {c d : String} {changes : List Change} {es : List Value}

/-! ### From the settings to their entries -/

/-- **One change.**  It keeps settings open, does to the entries what it says, and leaves all other
members in their order. -/
theorem apply_spec (h : r.Open) (ch : Change) :
    (ch.apply r).Open ∧ (ch.apply r).entries = ch.next r.entries ∧
    Members.others "hooks" (ch.apply r).root = Members.others "hooks" r.root ∧
    Members.others "Stop" (ch.apply r).hooks = Members.others "Stop" r.hooks := by
  have frame (es : List Value) : (r.setEntries es).Open ∧ (r.setEntries es).entries = es ∧
      Members.others "hooks" (r.setEntries es).root = Members.others "hooks" r.root ∧
      Members.others "Stop" (r.setEntries es).hooks = Members.others "Stop" r.hooks :=
    ⟨h.setEntries es, entries_setEntries h es, others_withHooks r _,
      hooks_setEntries h.root es ▸ others_withEntries r.hooks es⟩
  cases ch with
  | install c =>
      rw [Change.apply, Change.next, install_of_open h, ← has_eq]
      split
      · exact ⟨h, rfl, rfl, rfl⟩
      · exact frame _
  | uninstall c =>
      rw [Change.apply, Change.next, uninstall_eq]
      split
      · exact frame _
      next hhas =>
        rw [has_eq] at hhas
        exact ⟨h, (filter_of_not_any (Bool.eq_false_iff.mpr hhas)).symm, rfl, rfl⟩

theorem run_append (ch : Change) (r : Registry) :
    run (changes ++ [ch]) r = ch.apply (run changes r) := by
  rw [run, List.foldl_append]
  rfl

theorem entriesAfter_append (ch : Change) (es : List Value) :
    entriesAfter (changes ++ [ch]) es = ch.next (entriesAfter changes es) := by
  rw [entriesAfter, List.foldl_append]
  rfl

/-- A run changes nothing but the stop entries, and these as its changes do. -/
theorem run_spec (h : r.Open) (changes : List Change) :
    (run changes r).Open ∧ (run changes r).entries = entriesAfter changes r.entries ∧
    Members.others "hooks" (run changes r).root = Members.others "hooks" r.root ∧
    Members.others "Stop" (run changes r).hooks = Members.others "Stop" r.hooks := by
  induction changes using List.reverseRecOn with
  | nil => exact ⟨h, rfl, rfl, rfl⟩
  | append_singleton changes ch ih =>
      obtain ⟨hopen, hentries, hroot, hhooks⟩ := ih
      obtain ⟨hopen', hentries', hroot', hhooks'⟩ := apply_spec hopen ch
      rw [run_append, entriesAfter_append, ← hentries]
      exact ⟨hopen', hentries', hroot'.trans hroot, hhooks'.trans hhooks⟩

/-! ### What a run comes to -/

/-- An installation at the end is the last word on its command. -/
theorem lastInstalls_install :
    LastInstalls c (changes ++ [.install d]) ↔ c = d ∨ LastInstalls c changes := by
  simp only [LastInstalls]
  rw [List.filter_append]
  by_cases hc : d = c
  · simp [Change.command, hc]
  · simp [Change.command, hc, Ne.symm hc]

/-- A removal at the end is the last word on its command. -/
theorem lastInstalls_uninstall :
    LastInstalls c (changes ++ [.uninstall d]) ↔ c ≠ d ∧ LastInstalls c changes := by
  simp only [LastInstalls]
  rw [List.filter_append]
  by_cases hc : d = c
  · simp [Change.command, hc]
  · simp [Change.command, hc, Ne.symm hc]

theorem kept_install : kept (changes ++ [.install d]) es = kept changes es := by
  simp [kept, Change.removed?]

theorem kept_uninstall : kept (changes ++ [.uninstall d]) es =
    (kept changes es).filter fun e => !runs d e := by
  simp [kept, Change.removed?, List.filter_filter, Bool.and_comm]

/-- The new entries for commands run these commands alone. -/
theorem any_runs_entryFor {cs : List String} :
    (cs.map entryFor).any (runs c) = true ↔ c ∈ cs := by
  simp [List.any_map, runs_entryFor]

theorem filter_entryFor (cs : List String) : (cs.map entryFor).filter (fun e => !runs d e) =
    (cs.filter fun c => c != d).map entryFor := by
  rw [List.filter_map]
  congr 2
  funext c
  simp [runs_entryFor, bne]

/-- A command that no entry ran is run by none that was kept. -/
theorem any_kept (h : es.any (runs c) = false) : (kept changes es).any (runs c) = false := by
  rw [List.any_eq_false] at h ⊢
  exact fun e he => h e (List.mem_of_mem_filter he)

/-- **What a run comes to.**  Behind the entries that are kept stand those of an ordered set of
commands, and a command that was not registered before is in it if the last change that names it
installs it. -/
theorem entriesAfter_eq (changes : List Change) (es : List Value) :
    ∃ cs : List String, cs.Nodup ∧
      entriesAfter changes es = kept changes es ++ cs.map entryFor ∧
      ∀ c, es.any (runs c) = false → (c ∈ cs ↔ LastInstalls c changes) := by
  -- on the last change, as it is the one that decides about its command
  induction changes using List.reverseRecOn with
  | nil => exact ⟨[], List.nodup_nil, by simp [entriesAfter, kept], by simp [LastInstalls]⟩
  | append_singleton changes ch ih =>
      obtain ⟨cs, hnodup, heq, hlast⟩ := ih
      rw [entriesAfter_append, heq]
      cases ch with
      | install d =>
          rw [Change.next, kept_install]
          split
          next hany =>
            refine ⟨cs, hnodup, rfl, ?_⟩
            intro c hc
            rw [lastInstalls_install, ← hlast c hc]
            refine ⟨.inr, ?_⟩
            rintro (rfl | hmem)
            · -- it is registered, and by no entry that was there before
              rw [List.any_append, any_kept hc, Bool.false_or] at hany
              exact any_runs_entryFor.mp hany
            · exact hmem
          next hany =>
            have hnew : d ∉ cs := by
              intro hmem
              rw [List.any_append, any_runs_entryFor.mpr hmem, Bool.or_true] at hany
              exact hany rfl
            refine ⟨cs ++ [d], ?_, by simp, ?_⟩
            · refine List.nodup_append.mpr ⟨hnodup, List.nodup_singleton d, ?_⟩
              rintro a ha b hb rfl
              exact hnew (List.mem_singleton.mp hb ▸ ha)
            · intro c hc
              rw [lastInstalls_install, ← hlast c hc, List.mem_append, List.mem_singleton, or_comm]
      | uninstall d =>
          rw [Change.next, List.filter_append, filter_entryFor, kept_uninstall]
          refine ⟨_, hnodup.filter _, rfl, ?_⟩
          intro c hc
          rw [lastInstalls_uninstall, ← hlast c hc, List.mem_filter, bne_iff_ne, and_comm]

/-- The entries of different commands, counted by a command none of the others runs. -/
theorem countP_runs {cs : List String} (h : cs.Nodup) (hk : es.any (runs c) = false) :
    (es ++ cs.map entryFor).countP (runs c) = if c ∈ cs then 1 else 0 := by
  have hes : es.countP (runs c) = 0 := List.countP_eq_zero.mpr (List.any_eq_false.mp hk)
  have hcs : (cs.map entryFor).countP (runs c) = cs.count c := by
    rw [List.countP_map, List.count]
    congr 1
    funext d
    simp [runs_entryFor]
  rw [List.countP_append, hes, hcs, Nat.zero_add]
  exact h.count

/-- **The registry over a run.**  From settings that can take a stop hook, no install of a run
fails; the other members of the root and of the hooks stay as they are, in their order; the stop
entries are those that run none of the commands removed, with entries for different commands behind
them; and a command that was not registered before is registered at the end, by one entry, if the
last change that names it installs it, and else by none. -/
theorem run_correct (h : r.Open) (changes : List Change) :
    (run changes r).Open ∧
    (∀ before c after, changes = before ++ .install c :: after →
      ∃ done, ((run before r).install c).1 = .ok done) ∧
    (Members.others "hooks" (run changes r).root = Members.others "hooks" r.root ∧
      Members.others "Stop" (run changes r).hooks = Members.others "Stop" r.hooks) ∧
    (∃ cs : List String, cs.Nodup ∧
      (run changes r).entries = kept changes r.entries ++ cs.map entryFor) ∧
    ∀ c, r.has c = false →
      ((run changes r).has c = true ↔ LastInstalls c changes) ∧
      (LastInstalls c changes → (run changes r).entries.countP (runs c) = 1) ∧
      (¬ LastInstalls c changes → (run changes r).entries.countP (runs c) = 0) := by
  obtain ⟨hopen, hentries, hroot, hhooks⟩ := run_spec h changes
  obtain ⟨cs, hnodup, heq, hlast⟩ := entriesAfter_eq changes r.entries
  refine ⟨hopen, ?_, ⟨hroot, hhooks⟩, ⟨cs, hnodup, hentries.trans heq⟩, ?_⟩
  · intro before c after _
    rw [install_of_open (run_spec h before).1]
    split
    · exact ⟨false, rfl⟩
    · exact ⟨true, rfl⟩
  · intro c hc
    rw [has_eq] at hc
    have hcount : (run changes r).entries.countP (runs c) = if c ∈ cs then 1 else 0 := by
      rw [hentries, heq]
      exact countP_runs hnodup (any_kept hc)
    rw [← hlast c hc, hcount]
    refine ⟨?_, fun hmem => if_pos hmem, fun hmem => if_neg hmem⟩
    rw [has_eq, hentries, heq, List.any_append, any_kept hc, Bool.false_or]
    exact any_runs_entryFor

/-- An entry of two commands goes with either, and its commands can be installed again. -/
theorem run_correct_shared_entry :
    let hook (c : String) : Value := .object [("command", .string c)]
    let r : Registry := ⟨[("hooks", .object [("Stop", .array
      [.object [("hooks", .array [hook "a", hook "b"])]])]), ("model", .string "m")]⟩
    let changes : List Change := [.install "a", .uninstall "b", .install "a", .install "c"]
    Members.others "hooks" (run changes r).root = [("model", .string "m")] ∧
    ∃ cs : List String, cs.Nodup ∧
      (run changes r).entries = kept changes r.entries ++ cs.map entryFor ∧
      ((run changes r).has "c" = true ↔ LastInstalls "c" changes) := by
  intro hook r changes
  have hopen : r.Open := by
    constructor
    · exact (by decide : ["hooks", "model"].Nodup)
    · rintro v hv
      cases hv
      exact ⟨_, rfl⟩
    · exact (by decide : ["Stop"].Nodup)
    · rintro v hv
      cases hv
      exact ⟨_, rfl⟩
  obtain ⟨-, -, ⟨hroot, -⟩, ⟨cs, hnodup, hentries⟩, hnew⟩ := run_correct hopen changes
  exact ⟨hroot, cs, hnodup, hentries, (hnew "c" (by decide)).1⟩

end LintGate.Registry
