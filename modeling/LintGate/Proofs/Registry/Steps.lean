import LintGate.Proofs.Json.Sound
import LintGate.Registry

/-!
# The registry — what one change does

Installing and removing change one thing, the list of stop entries (`install_cases`,
`uninstall_eq`).  Settings with other stop entries (`setEntries`) are the same settings otherwise:
all other members stay as they are, what can take a stop hook still can (`Open`), and what could
have been read still could.
-/

namespace LintGate.Registry

open Json

variable {r : Registry} {c : String}

/-! ### The stop entries -/

/-- The hooks, if the settings have them. -/
def hooks (r : Registry) : Members :=
  match Members.get? "hooks" r.root with
  | some (.object hs) => hs
  | _                 => []

/-- The stop entries, or none. -/
def entries (r : Registry) : List Value :=
  r.entries?.getD []

/-- The settings with these stop entries. -/
def setEntries (r : Registry) (es : List Value) : Registry :=
  r.withHooks (withEntries r.hooks es)

theorem hooks_eq {hs : Members}
    (h : (Members.get? "hooks" r.root).getD (.object []) = .object hs) : r.hooks = hs := by
  rw [hooks]
  cases hk : Members.get? "hooks" r.root with
  | none =>
      rw [hk] at h
      exact Value.object.inj h
  | some v =>
      rw [hk] at h
      obtain rfl : v = .object hs := h
      rfl

theorem entries?_eq (r : Registry) :
    r.entries? = (Members.get? "Stop" r.hooks).bind Value.items? := by
  rw [entries?, hooks]
  cases Members.get? "hooks" r.root with
  | none => rfl
  | some v => cases v <;> rfl

theorem entries_eq {es : List Value}
    (h : (Members.get? "Stop" r.hooks).getD (.array []) = .array es) : r.entries = es := by
  rw [entries, entries?_eq]
  cases hk : Members.get? "Stop" r.hooks with
  | none =>
      rw [hk] at h
      exact Value.array.inj h
  | some v =>
      rw [hk] at h
      obtain rfl : v = .array es := h
      rfl

/-- A command is there exactly if some entry runs it. -/
theorem has_eq (c : String) (r : Registry) : r.has c = r.entries.any (runs c) :=
  has_eq_any c r

theorem filter_of_not_any {es : List Value} {p : Value → Bool} (h : es.any p = false) :
    es.filter (fun e => !p e) = es := by
  refine List.filter_eq_self.mpr ?_
  intro e he
  simpa using List.any_eq_false.mp h e he

theorem put_ne_nil {α : Type} (k : String) (v : α) (ms : List (String × α)) :
    Members.put k v ms ≠ [] := by
  intro h
  have hget := Members.get?_put_self k v ms
  rw [h] at hget
  cases hget

/-- New entries are put under their name in the hooks, and these under theirs. -/
theorem setEntries_of_ne_nil {es : List Value} (h : es ≠ []) :
    r.setEntries es =
      ⟨Members.put "hooks" (.object (Members.put "Stop" (.array es) r.hooks)) r.root⟩ := by
  have hhooks := put_ne_nil "Stop" (Value.array es) r.hooks
  rw [setEntries, withEntries, if_neg (by simpa using h), withHooks, if_neg (by simpa using hhooks)]

/-- An entry stands in the array of stop entries among the hooks. -/
theorem exists_of_mem_entries {e : Value} (h : e ∈ r.entries) :
    ∃ hs es, Members.get? "hooks" r.root = some (.object hs) ∧
      Members.get? "Stop" hs = some (.array es) ∧ e ∈ es := by
  rw [entries, entries?] at h
  cases hhooks : Members.get? "hooks" r.root with
  | none =>
      rw [hhooks] at h
      cases h
  | some v =>
      rw [hhooks] at h
      cases v with
      | object hs =>
          rw [Option.bind_some, Value.get?] at h
          cases hstop : Members.get? "Stop" hs with
          | none =>
              rw [hstop] at h
              cases h
          | some v =>
              rw [hstop] at h
              cases v with
              | array es => exact ⟨hs, es, rfl, hstop, h⟩
              | _ => cases h
      | _ => cases h

/-! ### The two changes -/

/-- Something of the wrong kind stands where this part of the settings belongs. -/
def Blocked (r : Registry) : Malformed → Prop
  | .hooks => ∃ v, Members.get? "hooks" r.root = some v ∧ ∀ hs, v ≠ .object hs
  | .stop  => ∃ hs v, Members.get? "hooks" r.root = some (.object hs) ∧
      Members.get? "Stop" hs = some v ∧ ∀ es, v ≠ .array es

/-- Where something of the wrong kind is in the way, no entry is found. -/
theorem entries_of_blocked {m : Malformed} (h : r.Blocked m) : r.entries = [] := by
  refine List.eq_nil_iff_forall_not_mem.mpr ?_
  intro e he
  obtain ⟨hs, es, hhooks, hstop, -⟩ := exists_of_mem_entries he
  cases m with
  | hooks =>
      obtain ⟨v, hv, hkind⟩ := h
      exact absurd (Option.some.inj (hv.symm.trans hhooks)) (hkind hs)
  | stop =>
      obtain ⟨hs', v, hhooks', hv, hkind⟩ := h
      obtain rfl : hs' = hs := by
        rw [hhooks'] at hhooks
        exact Value.object.inj (Option.some.inj hhooks)
      exact absurd (Option.some.inj (hv.symm.trans hstop)) (hkind es)

/-- Where something of the wrong kind is in the way, no command is found. -/
theorem has_of_blocked {m : Malformed} (h : r.Blocked m) (c : String) : r.has c = false := by
  rw [has_eq, entries_of_blocked h, List.any_nil]

/-- If nothing is in the way of the hooks, they are the object there, or the empty one. -/
theorem getD_hooks (h : ¬ r.Blocked .hooks) :
    (Members.get? "hooks" r.root).getD (.object []) = .object r.hooks := by
  rw [hooks]
  cases hk : Members.get? "hooks" r.root with
  | none => rfl
  | some v =>
      cases v with
      | object hs => rfl
      | _ => exact (h ⟨_, hk, by simp⟩).elim

/-- If nothing is in the way of the entries, they are the array there, or the empty one. -/
theorem getD_stop (h : ¬ r.Blocked .stop) :
    (Members.get? "Stop" r.hooks).getD (.array []) = .array r.entries := by
  rw [entries, entries?_eq]
  cases hk : Members.get? "Stop" r.hooks with
  | none => rfl
  | some v =>
      cases v with
      | array es => rfl
      | _ =>
          -- there are hooks, as something stands among them
          rw [hooks] at hk
          split at hk
          next hs hhooks => exact (h ⟨hs, _, hhooks, hk, by simp⟩).elim
          · cases hk

/-- A command that is there is not installed again. -/
theorem install_of_has (h : r.has c = true) : r.install c = (.ok false, r) := by
  rw [install, if_pos h]

/-- What is in the way of the entries is found on the way down, before anything was put in. -/
theorem install_of_blocked {m : Malformed} (h : r.Blocked m) (c : String) :
    r.install c = (.error m, r) := by
  rw [install, has_of_blocked h, if_neg Bool.false_ne_true]
  cases m with
  | hooks =>
      obtain ⟨v, hv, hkind⟩ := h
      simp only [Members.ensure_of_get? hv, hv]
      split
      next hs hobject => exact absurd (Option.some.inj hobject) (hkind hs)
      · rfl
  | stop =>
      obtain ⟨hs, v, hhooks, hv, hkind⟩ := h
      simp only [Members.ensure_of_get? hhooks, hhooks, Members.ensure_of_get? hv, hv]
      split
      next es harray => exact absurd (Option.some.inj harray) (hkind es)
      · rw [Members.put_of_get? hhooks]

/-- A new command goes behind the other entries, if nothing is in the way. -/
theorem install_of_free (hnew : r.has c = false) (hfree : ∀ m, ¬ r.Blocked m) :
    r.install c = (.ok true, r.setEntries (r.entries ++ [entryFor c])) := by
  rw [install, hnew, if_neg Bool.false_ne_true, setEntries_of_ne_nil (by simp)]
  simp only [Members.get?_ensure, getD_hooks (hfree .hooks), getD_stop (hfree .stop),
    Members.put_ensure]

/-- All that installing can do: it fails if something of the wrong kind is in the way, and then
changes nothing. -/
theorem install_cases (c : String) (r : Registry) :
    (r.has c = true ∧ r.install c = (.ok false, r)) ∨
    (r.has c = false ∧ r.install c = (.ok true, r.setEntries (r.entries ++ [entryFor c]))) ∨
    ∃ m, r.install c = (.error m, r) ∧ r.Blocked m := by
  cases hhas : r.has c with
  | true => exact .inl ⟨rfl, install_of_has hhas⟩
  | false =>
      by_cases hblocked : ∃ m, r.Blocked m
      · obtain ⟨m, hm⟩ := hblocked
        exact .inr (.inr ⟨m, install_of_blocked hm c, hm⟩)
      · exact .inr (.inl ⟨rfl, install_of_free hhas (not_exists.mp hblocked)⟩)

/-- An installation finds nothing to do exactly if the command is there. -/
theorem install_ok_false_iff : (r.install c).1 = .ok false ↔ r.has c = true := by
  constructor
  · intro h
    rcases install_cases c r with ⟨hhas, -⟩ | ⟨-, hdo⟩ | ⟨m, hdo, -⟩
    · exact hhas
    all_goals
      rw [hdo] at h
      cases h
  · intro hhas
    rw [install_of_has hhas]

/-- An installation fails exactly on what is in the way, and says what. -/
theorem install_error_iff {m : Malformed} : (r.install c).1 = .error m ↔ r.Blocked m := by
  constructor
  · intro h
    rcases install_cases c r with ⟨-, hdo⟩ | ⟨-, hdo⟩ | ⟨m', hdo, hm⟩
    all_goals
      rw [hdo] at h
      cases h
    exact hm
  · intro hm
    rw [install_of_blocked hm]

/-- An installation is done exactly if the command is new and nothing is in the way. -/
theorem install_ok_true_iff :
    (r.install c).1 = .ok true ↔ ¬ r.has c = true ∧ ∀ m, ¬ r.Blocked m := by
  constructor
  · intro h
    refine ⟨?_, fun m => ?_⟩
    · rw [← install_ok_false_iff, h]
      simp
    · rw [← install_error_iff (c := c), h]
      simp
  · rintro ⟨hnew, hfree⟩
    rw [install_of_free (Bool.eq_false_iff.mpr hnew) hfree]

/-- A command that is registered is so in an array of entries among the hooks. -/
theorem exists_of_has (h : r.has c = true) :
    ∃ hs es, Members.get? "hooks" r.root = some (.object hs) ∧ r.entries? = some es := by
  rw [has] at h
  cases hes : r.entries? with
  | none =>
      rw [hes] at h
      cases h
  | some es =>
      rw [entries?] at hes
      cases hk : Members.get? "hooks" r.root with
      | none =>
          rw [hk] at hes
          cases hes
      | some v =>
          rw [hk] at hes
          cases v with
          | object hs => exact ⟨hs, es, rfl, rfl⟩
          | _ => cases hes

/-- All that removing can do. -/
theorem uninstall_eq (c : String) (r : Registry) :
    r.uninstall c =
      if r.has c then (true, r.setEntries (r.entries.filter fun e => !runs c e))
      else (false, r) := by
  cases hhas : r.has c with
  | true =>
      obtain ⟨hs, es, hhooks, hes⟩ := exists_of_has hhas
      have hany : es.any (runs c) = true := by
        rw [has, hes] at hhas
        exact hhas
      have hh : r.hooks = hs := by rw [hooks, hhooks]
      have he : r.entries = es := by rw [entries, hes, Option.getD_some]
      rw [uninstall, hhooks, hes, setEntries, hh, he]
      simp only [hany, if_true]
  | false =>
      rw [uninstall]
      -- with entries none of them runs the command, and without any there is nothing to do
      split
      next hs es hhooks hes =>
        have hany : es.any (runs c) = false := by
          rw [has, hes] at hhas
          exact hhas
        simp only [hany, Bool.false_eq_true, if_false]
      · simp only [Bool.false_eq_true, if_false]

/-! ### What the settings inherit -/

section

variable {P : Nat → Value → Prop} {d : Nat}

/-- What is passed down from the settings reaches the hooks. -/
theorem inherited_hooks (hP : Value.Inherited P) (h : P (d + 2) (.object r.root)) :
    P (d + 1) (.object r.hooks) := by
  rw [hooks]
  split
  next hs hget => exact hP.of_get? h hget
  · exact hP.empty

/-- What is passed down from the settings reaches every entry. -/
theorem inherited_entries (hP : Value.Inherited P) (h : P (d + 3) (.object r.root)) :
    ∀ e ∈ r.entries, P d e := by
  intro e he
  obtain ⟨hs, es, hhooks, hstop, he⟩ := exists_of_mem_entries he
  exact hP.item (hP.of_get? (hP.of_get? h hhooks) hstop) e he

/-- Whatever the entries that are put in have, the settings have with them. -/
theorem inherited_setEntries (hP : Value.Inherited P) (h : P (d + 3) (.object r.root))
    {es : List Value} (hes : ∀ e ∈ es, P d e) : P (d + 3) (.object (r.setEntries es).root) := by
  have hhooks : P (d + 2) (.object (withEntries r.hooks es)) := by
    rw [withEntries]
    split
    · exact hP.erase (inherited_hooks hP h)
    · exact hP.put (inherited_hooks hP h) (hP.array hes)
  rw [setEntries, withHooks]
  split
  · exact hP.erase h
  · exact hP.put h hhooks

/-- What is passed down from the settings, and holds of the new entry, is kept by an installation.
-/
theorem inherited_install (hP : Value.Inherited P) (h : P (d + 3) (.object r.root)) {c : String}
    (hc : P d (entryFor c)) : P (d + 3) (.object (r.install c).2.root) := by
  rcases install_cases c r with ⟨-, hdo⟩ | ⟨-, hdo⟩ | ⟨m, hdo, -⟩
  · rwa [hdo]
  · rw [hdo]
    refine inherited_setEntries hP h ?_
    intro e he
    rcases List.mem_append.mp he with he | he
    · exact inherited_entries hP h e he
    · exact List.mem_singleton.mp he ▸ hc
  · rwa [hdo]

/-- What is passed down from the settings is kept by a removal. -/
theorem inherited_uninstall (hP : Value.Inherited P) (h : P (d + 3) (.object r.root)) (c : String) :
    P (d + 3) (.object (r.uninstall c).2.root) := by
  rw [uninstall_eq]
  split
  · exact inherited_setEntries hP h fun e he =>
      inherited_entries hP h e (List.mem_of_mem_filter he)
  · exact h

end

/-! ### What stays -/

/-- Settings that can take a stop hook: members are named once, `hooks` is absent or an object, and
`Stop` in it is absent or an array. -/
structure Open (r : Registry) : Prop where
  root : Members.Distinct r.root
  hooks : ∀ v, Members.get? "hooks" r.root = some v → ∃ hs, v = .object hs
  named_once : Members.Distinct r.hooks
  stop : ∀ v, Members.get? "Stop" r.hooks = some v → ∃ es, v = .array es

theorem others_withHooks (r : Registry) (hs : Members) :
    Members.others "hooks" (r.withHooks hs).root = Members.others "hooks" r.root := by
  rw [withHooks]
  split
  · exact Members.others_erase
  · exact Members.others_put

theorem others_withEntries (hs : Members) (es : List Value) :
    Members.others "Stop" (withEntries hs es) = Members.others "Stop" hs := by
  rw [withEntries]
  split
  · exact Members.others_erase
  · exact Members.others_put

theorem distinct_withEntries {hs : Members} (h : Members.Distinct hs) (es : List Value) :
    Members.Distinct (withEntries hs es) := by
  rw [withEntries]
  split
  · exact Members.distinct_erase h
  · exact Members.distinct_put h

theorem distinct_withHooks (h : Members.Distinct r.root) (hs : Members) :
    Members.Distinct (r.withHooks hs).root := by
  rw [withHooks]
  split
  · exact Members.distinct_erase h
  · exact Members.distinct_put h

/-- The stop entries that are put in are there, or there are none. -/
theorem get?_withEntries {hs : Members} (h : Members.Distinct hs) (es : List Value) :
    Members.get? "Stop" (withEntries hs es) = if es.isEmpty then none else some (.array es) := by
  rw [withEntries]
  split
  · exact Members.get?_erase_self h
  · exact Members.get?_put_self _ _ _

/-- New hooks are found under their name, unless they are empty. -/
theorem get?_withHooks (h : Members.Distinct r.root) (hs : Members) :
    Members.get? "hooks" (r.withHooks hs).root =
      if hs.isEmpty then none else some (.object hs) := by
  rw [withHooks]
  split
  · exact Members.get?_erase_self h
  · exact Members.get?_put_self _ _ _

theorem hooks_setEntries (h : Members.Distinct r.root) (es : List Value) :
    (r.setEntries es).hooks = withEntries r.hooks es := by
  refine hooks_eq ?_
  rw [setEntries, get?_withHooks h]
  split
  next hnil => rw [List.isEmpty_iff.mp hnil, Option.getD_none]
  · rfl

theorem entries_setEntries (h : r.Open) (es : List Value) : (r.setEntries es).entries = es := by
  refine entries_eq ?_
  rw [hooks_setEntries h.root, get?_withEntries h.named_once]
  split
  next hnil => rw [List.isEmpty_iff.mp hnil, Option.getD_none]
  · rfl

/-- Settings that take an entry still do with other entries. -/
theorem Open.setEntries (h : r.Open) (es : List Value) : (r.setEntries es).Open := by
  constructor
  · exact distinct_withHooks h.root _
  · intro v hv
    rw [Registry.setEntries, get?_withHooks h.root] at hv
    split at hv
    · cases hv
    · cases hv
      exact ⟨_, rfl⟩
  · rw [hooks_setEntries h.root]
    exact distinct_withEntries h.named_once es
  · intro v hv
    rw [hooks_setEntries h.root, get?_withEntries h.named_once] at hv
    split at hv
    · cases hv
    · cases hv
      exact ⟨_, rfl⟩

/-- In settings that take an entry nothing is in the way. -/
theorem Open.not_blocked (h : r.Open) (m : Malformed) : ¬ r.Blocked m := by
  cases m with
  | hooks =>
      rintro ⟨v, hv, hkind⟩
      obtain ⟨hs, hhs⟩ := h.hooks v hv
      exact hkind hs hhs
  | stop =>
      rintro ⟨hs, v, hhooks, hv, hkind⟩
      have hr : r.hooks = hs := by rw [Registry.hooks, hhooks]
      obtain ⟨es, hes⟩ := h.stop v (hr ▸ hv)
      exact hkind es hes

/-- Settings that can take a stop hook take it. -/
theorem install_of_open (h : r.Open) (c : String) :
    r.install c =
      if r.has c then (.ok false, r) else (.ok true, r.setEntries (r.entries ++ [entryFor c])) := by
  cases hhas : r.has c with
  | true => rw [install_of_has hhas, if_pos rfl]
  | false => rw [install_of_free hhas h.not_blocked, if_neg Bool.false_ne_true]

end LintGate.Registry
