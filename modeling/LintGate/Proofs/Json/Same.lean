import LintGate.Proofs.Json.Sound

/-!
# JSON — the same but for the order of members

Objects that name each member once, at every level (`Value.NamedOnce`), are compared by looking
names up, and so a value is the same as itself (`Value.same_refl`).  Putting the same under one name
into objects that agree on all other names gives the same object, wherever the member comes to stand
(`Value.same_put`).
-/

namespace LintGate.Json

theorem Number.same_refl (n : Number) : n.same n = true := by
  cases n with
  | int n => exact beq_self_eq_true n
  | double d => simp [Number.same, Binary64.same]

namespace Value

/-- A value whose objects name each member once. -/
inductive NamedOnce : Value → Prop where
  | null : NamedOnce .null
  | bool (b : Bool) : NamedOnce (.bool b)
  | number (n : Number) : NamedOnce (.number n)
  | string (s : String) : NamedOnce (.string s)
  | array {vs : List Value} (h : ∀ v ∈ vs, NamedOnce v) : NamedOnce (.array vs)
  | object {ms : Members} (hd : Members.Distinct ms) (h : ∀ m ∈ ms, NamedOnce m.2) :
      NamedOnce (.object ms)

/-- A sound value names nothing twice. -/
theorem Sound.namedOnce {d : Nat} {v : Value} (h : v.Sound d) : v.NamedOnce := by
  induction h with
  | null => exact .null
  | bool b => exact .bool b
  | int _ => exact .number _
  | double _ => exact .number _
  | string s => exact .string s
  | array _ ih => exact .array ih
  | object hd _ ih => exact .object hd ih

namespace NamedOnce

variable {k : String} {v : Value} {ms : Members} {vs : List Value}

theorem nil : (Value.object []).NamedOnce :=
  .object List.nodup_nil fun _ hm => absurd hm List.not_mem_nil

theorem distinct (h : (Value.object ms).NamedOnce) : Members.Distinct ms := by
  cases h with
  | object hd _ => exact hd

theorem of_mem (h : (Value.object ms).NamedOnce) : ∀ m ∈ ms, m.2.NamedOnce := by
  cases h with
  | object _ h => exact h

theorem cons (hk : k ∉ Members.keys ms) (hv : v.NamedOnce) (h : (Value.object ms).NamedOnce) :
    (Value.object ((k, v) :: ms)).NamedOnce :=
  .object (Members.distinct_cons.mpr ⟨hk, h.distinct⟩) (List.forall_mem_cons.mpr ⟨hv, h.of_mem⟩)

theorem of_mem_items (h : (Value.array vs).NamedOnce) : ∀ v ∈ vs, v.NamedOnce := by
  cases h with
  | array h => exact h

end NamedOnce

/-- That nothing is named twice is passed down, and kept by what is done to documents. -/
theorem inherited_namedOnce : Inherited fun _ v => v.NamedOnce where
  empty := .nil
  member := NamedOnce.of_mem
  item := NamedOnce.of_mem_items
  array := .array
  put h hv := .object (Members.distinct_put h.distinct) fun m hm =>
    (Members.mem_put hm).elim (fun e => e ▸ hv) (h.of_mem m)
  erase h := .object (Members.distinct_erase h.distinct) fun m hm =>
    h.of_mem m ((Members.erase_sublist _ _).subset hm)

/-! ### Member by member -/

/-- Members are found in others exactly if each has the same under its name there. -/
theorem foundIn_iff {ms ns : Members} : foundIn ms ns = true ↔
    ∀ m ∈ ms, ∃ w, Members.get? m.1 ns = some w ∧ m.2.same w = true := by
  induction ms with
  | nil => simp [foundIn]
  | cons m ms ih =>
      obtain ⟨k, v⟩ := m
      rw [foundIn, Bool.and_eq_true, ih, List.forall_mem_cons]
      refine and_congr_left fun _ => ?_
      cases Members.get? k ns with
      | none => simp
      | some w => simp

/-- Objects are the same exactly if they have equally many members and each is found in the other.
-/
theorem same_object_iff {ms ns : Members} : (Value.object ms).same (.object ns) = true ↔
    ms.length = ns.length ∧
      ∀ m ∈ ms, ∃ w, Members.get? m.1 ns = some w ∧ m.2.same w = true := by
  rw [same, Bool.and_eq_true, beq_iff_eq, foundIn_iff]

theorem sameItems_refl {vs : List Value} (h : ∀ v ∈ vs, v.same v = true) :
    sameItems vs vs = true := by
  induction vs with
  | nil => rfl
  | cons v vs ih =>
      obtain ⟨hv, hvs⟩ := List.forall_mem_cons.mp h
      rw [sameItems, hv, ih hvs, Bool.and_self]

/-- A value is the same as itself. -/
theorem same_refl {v : Value} (h : v.NamedOnce) : v.same v = true := by
  induction h with
  | null => rfl
  | bool b => exact beq_self_eq_true b
  | number n => exact n.same_refl
  | string s => exact beq_self_eq_true s
  | array _ ih => exact sameItems_refl ih
  | object hd _ ih =>
      exact same_object_iff.mpr ⟨rfl, fun m hm => ⟨m.2, Members.get?_of_mem hd hm, ih m hm⟩⟩

/-- Objects that agree on the other members are the same once the same is put in. -/
theorem same_put {k : String} {v w : Value} {ms ns : Members} (hms : (Value.object ms).NamedOnce)
    (hns : Members.Distinct ns) (hothers : Members.others k ms = Members.others k ns)
    (hvw : v.same w = true) :
    (Value.object (Members.put k v ms)).same (.object (Members.put k w ns)) = true := by
  refine same_object_iff.mpr ⟨?_, ?_⟩
  · have hlength := (Members.put_perm (k := k) (v := w) hns).length_eq
    rw [List.length_cons, ← hothers] at hlength
    rw [hlength, (Members.put_perm hms.distinct).length_eq, List.length_cons]
  · intro m hm
    rcases List.mem_cons.mp ((Members.put_perm hms.distinct).mem_iff.mp hm) with rfl | hm
    · exact ⟨w, Members.get?_put_self _ _ _, hvw⟩
    · obtain ⟨hmem, -⟩ := Members.mem_others.mp hm
      rw [hothers] at hm
      obtain ⟨hmem', hne⟩ := Members.mem_others.mp hm
      refine ⟨m.2, ?_, same_refl (hms.of_mem m hmem)⟩
      rw [Members.get?_put_of_ne (Ne.symm hne)]
      exact Members.get?_of_mem hns hmem'

end Value

end LintGate.Json
