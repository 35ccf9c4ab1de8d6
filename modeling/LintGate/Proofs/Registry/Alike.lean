import LintGate.Proofs.Json.Alike
import LintGate.Proofs.Registry.Effect

/-!
# The registry — settings alike

Settings are alike (`Alike`) if they name each member once and are the same but for the order of
members.  Then the same stands in the way of an installation (`Alike.blocked`), the stop entries are
alike one by one (`Alike.entries`) and run the same commands (`runs_of_alike`), and with entries
alike put in they stay alike (`Alike.setEntries`).  Installing and removing do nothing else, and so
they answer the same in both and leave them alike (`same_respected`).
-/

namespace LintGate.Registry

open Json

variable {r q : Registry} {v w : Value} {ms ns : Members} {es fs : List Value}

/-! ### Entries -/

/-- Alike hooks run the same commands. -/
theorem hookRuns_of_alike (h : v.Alike w) (c : String) : hookRuns c v = hookRuns c w := by
  rw [hookRuns, hookRuns, bind_of_rel (h.get? "command") fun _ _ h => h.text?]

/-- An entry runs a command if one of its hooks does. -/
theorem runs_eq_any (c : String) (e : Value) :
    runs c e = (((e.get? "hooks").bind Value.items?).getD []).any (hookRuns c) := by
  rw [runs]
  cases (e.get? "hooks").bind Value.items? <;> rfl

/-- Alike entries run the same commands. -/
theorem runs_of_alike (h : v.Alike w) (c : String) : runs c v = runs c w := by
  have hhooks := rel_getD .nil (rel_bind (h.get? "hooks") fun _ _ h => h.items?)
  rw [runs_eq_any, runs_eq_any]
  exact any_of_forall₂ hhooks fun _ _ h => hookRuns_of_alike h c

/-- Of alike entries some run a command in both lists or in neither. -/
theorem any_runs_of_alike (h : List.Forall₂ Value.Alike es fs) (c : String) :
    es.any (runs c) = fs.any (runs c) :=
  any_of_forall₂ h fun _ _ h => runs_of_alike h c

/-! ### Containers -/

/-- Settings that name each member once, and are the same. -/
def Alike (r q : Registry) : Prop :=
  (Value.object r.root).Alike (.object q.root)

/-- Alike hooks stay alike with alike entries. -/
theorem withEntries_alike (h : (Value.object ms).Alike (.object ns))
    (hes : List.Forall₂ Value.Alike es fs) :
    (Value.object (withEntries ms es)).Alike (.object (withEntries ns fs)) := by
  rw [withEntries, withEntries, isEmpty_of_forall₂ hes]
  split
  · exact h.erase "Stop"
  · exact h.put "Stop" (Value.alike_array_iff.mpr hes)

theorem withHooks_alike (h : r.Alike q) (hhooks : (Value.object ms).Alike (.object ns)) :
    (r.withHooks ms).Alike (q.withHooks ns) := by
  rw [withHooks, withHooks, hhooks.isEmpty]
  split
  · exact Value.Alike.erase h "hooks"
  · exact Value.Alike.put h "hooks" hhooks

namespace Alike

theorem symm (h : r.Alike q) : q.Alike r :=
  Value.Alike.symm h

theorem get? (h : r.Alike q) (k : String) :
    Option.Rel Value.Alike (Members.get? k r.root) (Members.get? k q.root) :=
  Value.Alike.get? h k

theorem hooks (h : r.Alike q) : (Value.object r.hooks).Alike (.object q.hooks) := by
  rw [Registry.hooks, Registry.hooks]
  cases hr : Members.get? "hooks" r.root with
  | none =>
      rw [(none_iff_of_rel (h.get? "hooks")).mp hr]
      exact .nil
  | some v =>
      obtain ⟨w, hq, hvw⟩ := exists_of_rel (h.get? "hooks") hr
      rw [hq]
      cases Value.alike_iff.mp hvw with
      | object _ _ _ => exact hvw
      | _ => exact .nil

theorem entries (h : r.Alike q) : List.Forall₂ Value.Alike r.entries q.entries := by
  rw [Registry.entries, Registry.entries, entries?_eq, entries?_eq]
  exact rel_getD .nil (rel_bind (h.hooks.get? "Stop") fun _ _ h => h.items?)

theorem has (h : r.Alike q) (c : String) : r.has c = q.has c := by
  rw [has_eq, has_eq, any_runs_of_alike h.entries]

theorem setEntries (h : r.Alike q) (hes : List.Forall₂ Value.Alike es fs) :
    (r.setEntries es).Alike (q.setEntries fs) :=
  withHooks_alike h (withEntries_alike h.hooks hes)

/-- What is in the way of an installation is so in both. -/
theorem blocked (h : r.Alike q) {m : Malformed} (hm : r.Blocked m) : q.Blocked m := by
  cases m with
  | hooks =>
      obtain ⟨v, hv, hkind⟩ := hm
      obtain ⟨w, hw, hvw⟩ := exists_of_rel (h.get? "hooks") hv
      refine ⟨w, hw, ?_⟩
      rintro hs rfl
      cases Value.alike_iff.mp hvw with
      | object _ _ _ => exact hkind _ rfl
  | stop =>
      obtain ⟨hs, v, hhooks, hv, hkind⟩ := hm
      obtain ⟨w, hw, hobjects⟩ := exists_of_rel (h.get? "hooks") hhooks
      cases Value.alike_iff.mp hobjects with
      | object _ _ hmembers =>
          obtain ⟨w, hstop, hvw⟩ := exists_of_rel (hmembers "Stop") hv
          refine ⟨_, w, hw, hstop, ?_⟩
          rintro es rfl
          cases Value.alike_iff.mp hvw with
          | array _ => exact hkind _ rfl

/-! ### The two changes -/

/-- An installation goes alike in alike settings, and leaves alike ones. -/
theorem install (h : r.Alike q) (c : String) :
    (r.install c).1 = (q.install c).1 ∧ (r.install c).2.Alike (q.install c).2 := by
  rcases install_cases c r with ⟨hhas, hdo⟩ | ⟨hnew, hdo⟩ | ⟨m, hdo, hm⟩
  · rw [hdo, install_of_has (h.has c ▸ hhas)]
    exact ⟨rfl, h⟩
  · obtain ⟨-, hfree⟩ := install_ok_true_iff.mp (congrArg Prod.fst hdo)
    rw [hdo, install_of_free (h.has c ▸ hnew) fun m hm => hfree m (h.symm.blocked hm)]
    refine ⟨rfl, h.setEntries (List.rel_append h.entries (.cons ?_ .nil))⟩
    exact .refl (namedOnce_entryFor c)
  · rw [hdo, install_of_blocked (h.blocked hm)]
    exact ⟨rfl, h⟩

/-- A removal goes alike in alike settings, and leaves alike ones. -/
theorem uninstall (h : r.Alike q) (c : String) :
    (r.uninstall c).1 = (q.uninstall c).1 ∧ (r.uninstall c).2.Alike (q.uninstall c).2 := by
  rw [uninstall_eq, uninstall_eq, h.has c]
  split
  · refine ⟨rfl, h.setEntries (List.rel_filter (fun v w hvw => ?_) h.entries)⟩
    show (!runs c v) = true ↔ (!runs c w) = true
    rw [runs_of_alike hvw]
  · exact ⟨rfl, h⟩

end Alike

/-! ### Equal settings -/

/-- **Equal settings are treated alike.**  Among values that name each member once, equality goes by
kind and part: items in their order, members by name in any order, whole numbers and doubles apart,
and the two zeros as one number.  It is an equivalence of settings.  In equal settings the same
commands are registered, an installation answers the same and leaves equal settings, and so does a
removal. -/
theorem same_respected :
    (∀ v w : Value, v.NamedOnce → w.NamedOnce →
      (v.same w = true ↔ Value.Parallel Value.Alike v w)) ∧
    Equivalence (fun r q : {r : Registry // (Value.object r.root).NamedOnce} =>
      r.1.same q.1 = true) ∧
    ∀ r q : Registry, (Value.object r.root).NamedOnce → (Value.object q.root).NamedOnce →
      r.same q = true → ∀ c,
      r.has c = q.has c ∧
      ((r.install c).1 = (q.install c).1 ∧ (r.install c).2.same (q.install c).2 = true) ∧
      (r.uninstall c).1 = (q.uninstall c).1 ∧ (r.uninstall c).2.same (q.uninstall c).2 = true := by
  refine ⟨?_, ⟨?_, ?_, ?_⟩, ?_⟩
  · intro v w hv hw
    rw [← Value.alike_iff]
    exact ⟨fun h => ⟨hv, hw, h⟩, Value.Alike.same⟩
  · exact fun r => Value.same_refl r.2
  · intro r q h
    have hrq : r.1.Alike q.1 := ⟨r.2, q.2, h⟩
    exact hrq.symm.same
  · intro r q p hrq hqp
    have hrq : r.1.Alike q.1 := ⟨r.2, q.2, hrq⟩
    have hqp : q.1.Alike p.1 := ⟨q.2, p.2, hqp⟩
    exact (Value.Alike.trans hrq hqp).same
  · intro r q hr hq h c
    have hrq : r.Alike q := ⟨hr, hq, h⟩
    obtain ⟨hinstall, hinstalled⟩ := hrq.install c
    obtain ⟨huninstall, huninstalled⟩ := hrq.uninstall c
    exact ⟨hrq.has c, ⟨hinstall, hinstalled.same⟩, huninstall, huninstalled.same⟩

/-- Members in another order, and the other zero, make no difference to a removal; it leaves both
settings in the order they had. -/
theorem same_respected_reordered :
    let zero (negative : Bool) : Value := .number (.double ⟨negative, 0⟩)
    let stop : Value := .array [entryFor "a", entryFor "b"]
    let r : Registry := ⟨[("hooks", .object [("Stop", stop), ("x", zero false)]), ("y", .null)]⟩
    let q : Registry := ⟨[("y", .null), ("hooks", .object [("x", zero true), ("Stop", stop)])]⟩
    r.same q = true ∧ (r.uninstall "a").1 = (q.uninstall "a").1 ∧
    (r.uninstall "a").2.same (q.uninstall "a").2 = true ∧
    Members.keys (r.uninstall "a").2.root = ["hooks", "y"] ∧
    Members.keys (q.uninstall "a").2.root = ["y", "hooks"] := by
  intro zero stop r q
  have hzero (negative : Bool) : (zero negative).NamedOnce := .number _
  have hstop : stop.NamedOnce := .array (List.forall_mem_cons.mpr
    ⟨namedOnce_entryFor "a", List.forall_mem_singleton.mpr (namedOnce_entryFor "b")⟩)
  have hr : (Value.object r.root).NamedOnce :=
    .cons (by decide) (.cons (by decide) hstop (.cons (by decide) (hzero false) .nil))
      (.cons (by decide) .null .nil)
  have hq : (Value.object q.root).NamedOnce :=
    .cons (by decide) .null
      (.cons (by decide) (.cons (by decide) (hzero true) (.cons (by decide) hstop .nil)) .nil)
  have hsame : r.same q = true := by decide
  obtain ⟨-, -, hboth⟩ := same_respected
  obtain ⟨-, -, hanswer, hleft⟩ := hboth r q hr hq hsame "a"
  exact ⟨hsame, hanswer, hleft, rfl, rfl⟩

end LintGate.Registry
