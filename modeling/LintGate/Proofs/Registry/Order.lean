import LintGate.Proofs.Registry.Contract
import LintGate.Proofs.Registry.Runs
import LintGate.Proofs.Registry.Undo

/-!
# The registry — changes in either order

Two removals come to the same in either order: each takes out entries, and after both the entries
are gone for which either would have gone (`without_without`).  An installation and a removal of
another command come to the same settings, unless an entry runs both (`install_uninstall_swap`): the
removal may empty the containers that the installation then makes anew, and so only the order of
members may differ.  Of two installations the one that comes first has its entry first, and that is
all (`install_install_swap`).
-/

namespace LintGate.Registry

open Json

variable {r : Registry} {a b c : String} {es : List Value} {p q : Value → Bool}

/-! ### Removals -/

/-- The settings without the entries `p` holds of. -/
def without (p : Value → Bool) (r : Registry) : Registry :=
  if r.entries.any p then r.setEntries (r.entries.filter fun e => !p e) else r

/-- A removal takes out the entries that run the command. -/
theorem uninstall_eq_without (c : String) (r : Registry) :
    r.uninstall c = (r.has c, r.without (runs c)) := by
  rw [uninstall_eq, without, ← has_eq]
  cases r.has c <;> rfl

theorem without_of_any (h : r.entries.any p = true) :
    r.without p = r.setEntries (r.entries.filter fun e => !p e) :=
  if_pos h

theorem without_of_not_any (h : r.entries.any p = false) : r.without p = r := by
  rw [without, h, if_neg Bool.false_ne_true]

theorem ne_nil_of_any (h : es.any p = true) : es ≠ [] := by
  rintro rfl
  cases h

/-- The entries that stay are those that do not match, in their order. -/
theorem entries_without (h : (Value.object r.root).NamedOnce) (p : Value → Bool) :
    (r.without p).entries = r.entries.filter fun e => !p e := by
  cases hany : r.entries.any p with
  | false => rw [without_of_not_any hany, filter_of_not_any hany]
  | true =>
      rw [without_of_any hany, entries_setEntries (open_of_entries h (ne_nil_of_any hany))]

theorem any_or (p q : Value → Bool) (es : List Value) :
    es.any (fun e => p e || q e) = (es.any p || es.any q) := by
  induction es with
  | nil => rfl
  | cons e es ih =>
      rw [List.any_cons, List.any_cons, List.any_cons, ih]
      cases p e <;> cases q e <;> simp

/-- Two removals are one. -/
theorem without_without (h : (Value.object r.root).NamedOnce) (p q : Value → Bool) :
    (r.without p).without q = r.without fun e => p e || q e := by
  have hboth : (r.entries.filter fun e => !p e).filter (fun e => !q e) =
      r.entries.filter fun e => !(p e || q e) := by
    simp [List.filter_filter, Bool.and_comm]
  cases hp : r.entries.any p with
  | false =>
      rw [without_of_not_any hp, without, without, any_or, hp, Bool.false_or, ← hboth,
        filter_of_not_any hp]
  | true =>
      have hopen := open_of_entries h (ne_nil_of_any hp)
      have hany : r.entries.any (fun e => p e || q e) = true := by
        rw [any_or, hp, Bool.true_or]
      rw [without_of_any hany, ← hboth, without, entries_without h, without_of_any hp]
      split
      next hq => rw [setEntries_setEntries hopen (ne_nil_of_any hq)]
      next hq => rw [filter_of_not_any (Bool.eq_false_iff.mpr hq)]

/-- Two removals in either order leave the same settings, members in their order. -/
theorem uninstall_swap (h : (Value.object r.root).NamedOnce) (a b : String) :
    ((r.uninstall a).2.uninstall b).2 = ((r.uninstall b).2.uninstall a).2 := by
  simp only [uninstall_eq_without]
  rw [without_without h, without_without h]
  congr 1
  funext e
  exact Bool.or_comm _ _

/-! ### An installation and a removal -/

/-- Settings that take an entry still do with fewer entries. -/
theorem Open.without (h : r.Open) (p : Value → Bool) : (r.without p).Open := by
  rw [Registry.without]
  split
  · exact h.setEntries _
  · exact h

/-- A removal leaves a command that no entry runs together with the one removed. -/
theorem has_without_of_apart (h : (Value.object r.root).NamedOnce)
    (hapart : ∀ e ∈ r.entries, ¬ (runs a e = true ∧ runs b e = true)) :
    (r.without (runs b)).has a = r.has a := by
  rw [has_eq, has_eq, entries_without h, Bool.eq_iff_iff, List.any_eq_true, List.any_eq_true]
  constructor
  · rintro ⟨e, he, hrun⟩
    exact ⟨e, List.mem_of_mem_filter he, hrun⟩
  · rintro ⟨e, he, hrun⟩
    refine ⟨e, List.mem_filter.mpr ⟨he, ?_⟩, hrun⟩
    simpa using fun hb => hapart e he ⟨hrun, hb⟩

/-- Taking out one command passes over the new entry of another. -/
theorem filter_append_entryFor (hne : a ≠ b) (es : List Value) :
    (es ++ [entryFor a]).filter (fun e => !runs b e) =
      (es.filter fun e => !runs b e) ++ [entryFor a] := by
  rw [List.filter_append]
  simp [runs_entryFor, hne]

/-- A removal after the installation of another command keeps the new entry. -/
theorem uninstall_install_of_ne (h : r.Open) (hne : a ≠ b) :
    (r.setEntries (r.entries ++ [entryFor a])).uninstall b =
      (r.has b, r.setEntries ((r.entries.filter fun e => !runs b e) ++ [entryFor a])) := by
  have hhas : (r.setEntries (r.entries ++ [entryFor a])).has b = r.has b := by
    rw [Bool.eq_iff_iff, has_setEntries_append]
    exact or_iff_left (Ne.symm hne)
  rw [uninstall_eq, hhas, entries_setEntries h, filter_append_entryFor hne,
    setEntries_setEntries h (by simp)]
  split
  next hb => rw [hb]
  next hb =>
    have hb : r.has b = false := Bool.eq_false_iff.mpr hb
    rw [hb, filter_of_not_any (has_eq b r ▸ hb)]

/-- Entries put in after a removal are put into the same settings as without it. -/
theorem same_without_setEntries (h : (Value.object r.root).NamedOnce) (p : Value → Bool)
    (hes : ∀ e ∈ es, e.NamedOnce) (hne : es ≠ []) :
    ((r.without p).setEntries es).same (r.setEntries es) = true := by
  rw [without]
  split
  · exact same_setEntries h (fun e he => namedOnce_entries h e (List.mem_of_mem_filter he)) hes hne
  · exact Value.same_refl (inherited_setEntries (d := 0) Value.inherited_namedOnce h hes)

/-- An installation and a removal of another command answer the same in either order, and come to
the same settings, if no entry runs both. -/
theorem install_uninstall_swap (h : (Value.object r.root).NamedOnce) (hne : a ≠ b)
    (hapart : ∀ e ∈ r.entries, ¬ (runs a e = true ∧ runs b e = true)) :
    ((r.uninstall b).2.install a).1 = (r.install a).1 ∧
    ((r.install a).2.uninstall b).1 = (r.uninstall b).1 ∧
    ((r.uninstall b).2.install a).2.same ((r.install a).2.uninstall b).2 = true := by
  have hstays := has_without_of_apart h hapart
  rcases install_cases a r with ⟨hhas, hdo⟩ | ⟨hnew, hdo⟩ | ⟨m, hdo, hm⟩
  · have hnamed := namedOnce_uninstall h b
    rw [uninstall_eq_without] at hnamed
    rw [hdo, uninstall_eq_without, install_of_has (hstays.trans hhas)]
    exact ⟨rfl, rfl, Value.same_refl hnamed⟩
  · have hopen := open_of_install h (congrArg Prod.fst hdo)
    have hlast : (r.uninstall b).2.install a = (.ok true, (r.without (runs b)).setEntries
        ((r.entries.filter fun e => !runs b e) ++ [entryFor a])) := by
      rw [uninstall_eq_without, install_of_open (hopen.without _), hstays, hnew,
        if_neg Bool.false_ne_true, entries_without h]
    have hall : ∀ e ∈ (r.entries.filter fun e => !runs b e) ++ [entryFor a], e.NamedOnce :=
      List.forall_mem_append.mpr ⟨fun e he => namedOnce_entries h e (List.mem_of_mem_filter he),
        List.forall_mem_singleton.mpr (namedOnce_entryFor a)⟩
    rw [hlast, hdo, uninstall_install_of_ne hopen hne, uninstall_eq_without]
    exact ⟨rfl, rfl, same_without_setEntries h _ hall (by simp)⟩
  · have hnone : r.uninstall b = (false, r) := by
      rw [uninstall_eq, has_of_blocked hm, if_neg Bool.false_ne_true]
    rw [hdo, hnone, hdo]
    exact ⟨rfl, rfl, Value.same_refl h⟩

/-! ### Two installations -/

/-- The stop entries that are there, put in. -/
theorem setEntries_entries (h : r.entries ≠ []) : r.setEntries r.entries = r := by
  obtain ⟨e, he⟩ := List.exists_mem_of_ne_nil _ h
  obtain ⟨hs, es, hhooks, hstop, -⟩ := exists_of_mem_entries he
  have hr : r.hooks = hs := by rw [hooks, hhooks]
  have hes : r.entries = es := entries_eq (by rw [hr, hstop, Option.getD_some])
  rw [setEntries_of_ne_nil h, hr, hes, Members.put_of_get? hstop, Members.put_of_get? hhooks]

theorem next_install_ne_nil (c : String) (es : List Value) : (Change.install c).next es ≠ [] := by
  rw [Change.next]
  split
  next hany => exact ne_nil_of_any hany
  · simp

/-- An installation does to the settings what it does to the entries. -/
theorem install_eq_next (h : r.Open) (c : String) :
    (r.install c).2 = r.setEntries ((Change.install c).next r.entries) := by
  rw [install_of_open h, Change.next, ← has_eq]
  split
  next hhas => exact (setEntries_entries (ne_nil_of_any (has_eq c r ▸ hhas))).symm
  · rfl

theorem install_install_eq_next (h : r.Open) (a b : String) :
    ((r.install a).2.install b).2 =
      r.setEntries ((Change.install b).next ((Change.install a).next r.entries)) := by
  rw [install_eq_next h, install_eq_next (h.setEntries _), entries_setEntries h,
    setEntries_setEntries h (next_install_ne_nil a _)]

/-- Two installations, either way round, make the same entries but for their order. -/
theorem next_install_perm (a b : String) (es : List Value) :
    ((Change.install b).next ((Change.install a).next es)).Perm
      ((Change.install a).next ((Change.install b).next es)) := by
  by_cases hab : a = b
  · rw [hab]
  -- with one of the two registered before there is at most one entry to add
  cases ha : es.any (runs a) with
  | true => cases hb : es.any (runs b) <;> simp [Change.next, ha, hb]
  | false =>
      cases hb : es.any (runs b) with
      | true => simp [Change.next, ha, hb]
      | false =>
          have hswap := (List.Perm.swap (entryFor b) (entryFor a) []).append_left es
          simpa [Change.next, ha, hb, runs_entryFor, hab, Ne.symm hab] using hswap

/-- If a command can be installed, so can two of them in either order.  The same commands are
registered then, and but for the order of the stop entries the settings are the same, members in
their order. -/
theorem install_install_swap (h : r.Open) (a b : String) :
    let q := ((r.install a).2.install b).2
    let q' := ((r.install b).2.install a).2
    q.entries.Perm q'.entries ∧ q' = q.setEntries q'.entries ∧ ∀ c, q.has c = q'.has c := by
  intro q q'
  have hperm := next_install_perm a b r.entries
  have hne := next_install_ne_nil b ((Change.install a).next r.entries)
  have hq : q = _ := install_install_eq_next h a b
  have hq' : q' = _ := install_install_eq_next h b a
  rw [hq, hq', entries_setEntries h, entries_setEntries h]
  refine ⟨hperm, (setEntries_setEntries h hne _).symm, ?_⟩
  intro c
  rw [has_setEntries h, has_setEntries h, Bool.eq_iff_iff, List.any_eq_true, List.any_eq_true]
  simp only [hperm.mem_iff]

/-! ### Either order -/

/-- An installation in settings that take an entry does not fail. -/
theorem exists_ok_of_open (h : r.Open) (c : String) : ∃ done, (r.install c).1 = .ok done := by
  rw [install_of_open h]
  split
  · exact ⟨false, rfl⟩
  · exact ⟨true, rfl⟩

/-- **Changes in either order**, for any settings that name each member once.  Two removals leave
the same settings, members in their order.  An installation and a removal of another command, with
no entry that runs both, answer the same in either order and come to the same settings but for the
order of members.  Once one command can be installed, two can in either order; then the same
commands are registered, and only the order of the stop entries may differ. -/
theorem changes_commute (h : (Value.object r.root).NamedOnce) (a b : String) :
    ((r.uninstall a).2.uninstall b).2 = ((r.uninstall b).2.uninstall a).2 ∧
    (a ≠ b → (∀ e ∈ r.entries, ¬ (runs a e = true ∧ runs b e = true)) →
      ((r.uninstall b).2.install a).1 = (r.install a).1 ∧
      ((r.install a).2.uninstall b).1 = (r.uninstall b).1 ∧
      ((r.uninstall b).2.install a).2.same ((r.install a).2.uninstall b).2 = true) ∧
    ∀ done, (r.install a).1 = .ok done →
      ((∃ done, (r.install b).1 = .ok done) ∧ (∃ done, ((r.install a).2.install b).1 = .ok done) ∧
        ∃ done, ((r.install b).2.install a).1 = .ok done) ∧
      let q := ((r.install a).2.install b).2
      let q' := ((r.install b).2.install a).2
      q.entries.Perm q'.entries ∧ q' = q.setEntries q'.entries ∧ ∀ c, q.has c = q'.has c := by
  refine ⟨uninstall_swap h a b, install_uninstall_swap h, ?_⟩
  intro done hok
  have hopen := open_of_install h hok
  have hnext (c : String) : (r.install c).2.Open := (apply_spec hopen (.install c)).1
  exact ⟨⟨exists_ok_of_open hopen b, exists_ok_of_open (hnext a) b, exists_ok_of_open (hnext b) a⟩,
    install_install_swap hopen a b⟩

/-- The removal that comes first empties the hooks and takes them out, and the installation puts
them in again, behind the other member. -/
theorem changes_commute_hooks_moved :
    let r : Registry := ⟨[("hooks", .object [("Stop", .array [entryFor "b"])]),
      ("model", .string "m")]⟩
    let hooks : Value := .object [("Stop", .array [entryFor "a"])]
    (r.install "a").2.uninstall "b" = (true, ⟨[("hooks", hooks), ("model", .string "m")]⟩) ∧
    (r.uninstall "b").2.install "a" = (.ok true, ⟨[("model", .string "m"), ("hooks", hooks)]⟩) ∧
    ((r.uninstall "b").2.install "a").2.same ((r.install "a").2.uninstall "b").2 = true := by
  intro r hooks
  have hstop : (Value.array [entryFor "b"]).NamedOnce :=
    .array (List.forall_mem_singleton.mpr (namedOnce_entryFor "b"))
  have hnamed : (Value.object r.root).NamedOnce :=
    .cons (by decide) (.cons (by decide) hstop .nil) (.cons (by decide) (.string "m") .nil)
  have hapart : ∀ e ∈ r.entries, ¬ (runs "a" e = true ∧ runs "b" e = true) :=
    List.forall_mem_singleton.mpr (by decide)
  obtain ⟨-, hswap, -⟩ := changes_commute hnamed "a" "b"
  exact ⟨rfl, rfl, (hswap (by decide) hapart).2.2⟩

end LintGate.Registry
