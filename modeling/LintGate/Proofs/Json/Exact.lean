import LintGate.Proofs.Json.Numbers
import LintGate.Proofs.Json.Sound

/-!
# JSON — what a document denotes

A document denotes the same whether it is a text or a value in memory (`Exact`): strings decoded,
members in their order, and numbers as the rational numbers they are.  A text that names each member
once denotes what it means in memory exactly if each of its numerals is held (`Written.Held`): the
number it is read as denotes the same (`Written.exact_value_iff`).  Numerals read as whole numbers
are always held (`Written.held_of_doubleFree`).
-/

namespace LintGate.Json

/-- What a document denotes. -/
inductive Exact where
  | null
  | bool (b : Bool)
  | number (q : ℚ)
  | string (s : String)
  | array (items : List Exact)
  | object (members : List (String × Exact))

namespace Value

mutual

/-- What a value denotes. -/
def exact : Value → Exact
  | .null      => .null
  | .bool b    => .bool b
  | .number n  => .number n.decimal
  | .string s  => .string s
  | .array vs  => .array (itemExacts vs)
  | .object ms => .object (memberExacts ms)

/-- What items denote. -/
def itemExacts : List Value → List Exact
  | []      => []
  | v :: vs => exact v :: itemExacts vs

/-- What members denote. -/
def memberExacts : Members → List (String × Exact)
  | []           => []
  | (k, v) :: ms => (k, exact v) :: memberExacts ms

end

theorem itemExacts_eq_map (vs : List Value) : itemExacts vs = vs.map exact := by
  induction vs with
  | nil => rfl
  | cons v vs ih => simp [itemExacts, ih]

theorem memberExacts_eq_map (ms : Members) :
    memberExacts ms = ms.map fun m => (m.1, m.2.exact) := by
  induction ms with
  | nil => rfl
  | cons m ms ih => obtain ⟨k, v⟩ := m; simp [memberExacts, ih]

/-- Every number in the value fits: whole numbers their words, and doubles are finite. -/
inductive Fits : Value → Prop where
  | null : Fits .null
  | bool (b : Bool) : Fits (.bool b)
  | number {n : Number} (h : n.Fits) : Fits (.number n)
  | string (s : String) : Fits (.string s)
  | array {vs : List Value} (h : ∀ v ∈ vs, Fits v) : Fits (.array vs)
  | object {ms : Members} (h : ∀ m ∈ ms, Fits m.2) : Fits (.object ms)

end Value

namespace Written

mutual

/-- What a document denotes as it is written. -/
def exact : Written → Exact
  | .null         => .null
  | .bool b       => .bool b
  | .number n _ _ => .number n.decimal
  | .string s     => .string s
  | .array ws     => .array (itemExacts ws)
  | .object ms    => .object (memberExacts ms)

/-- What items denote. -/
def itemExacts : List Written → List Exact
  | []      => []
  | w :: ws => exact w :: itemExacts ws

/-- What members denote, each as it stands. -/
def memberExacts : List (String × Written) → List (String × Exact)
  | []           => []
  | (k, w) :: ms => (k, exact w) :: memberExacts ms

end

theorem itemExacts_eq_map (ws : List Written) : itemExacts ws = ws.map exact := by
  induction ws with
  | nil => rfl
  | cons w ws ih => simp [itemExacts, ih]

theorem memberExacts_eq_map (ms : List (String × Written)) :
    memberExacts ms = ms.map fun m => (m.1, m.2.exact) := by
  induction ms with
  | nil => rfl
  | cons m ms ih => obtain ⟨k, w⟩ := m; simp [memberExacts, ih]

/-- A document whose objects name each member once. -/
inductive NamedOnce : Written → Prop where
  | null : NamedOnce .null
  | bool (b : Bool) : NamedOnce (.bool b)
  | number {n : Numeral} {v : Number} (h : n.number? = .ok v) : NamedOnce (.number n v h)
  | string (s : String) : NamedOnce (.string s)
  | array {ws : List Written} (h : ∀ w ∈ ws, NamedOnce w) : NamedOnce (.array ws)
  | object {ms : List (String × Written)} (hd : Members.Distinct ms)
      (h : ∀ m ∈ ms, NamedOnce m.2) : NamedOnce (.object ms)

/-- The number that each numeral is read as denotes the same. -/
inductive Held : Written → Prop where
  | null : Held .null
  | bool (b : Bool) : Held (.bool b)
  | number {n : Numeral} {v : Number} (h : n.number? = .ok v) (heq : v.decimal = n.decimal) :
      Held (.number n v h)
  | string (s : String) : Held (.string s)
  | array {ws : List Written} (h : ∀ w ∈ ws, Held w) : Held (.array ws)
  | object {ms : List (String × Written)} (h : ∀ m ∈ ms, Held m.2) : Held (.object ms)

namespace Held

variable {ws : List Written} {ms : List (String × Written)}

/-- A numeral is held exactly if it is read as the number it denotes. -/
theorem number_iff {n : Numeral} {v : Number} {h : n.number? = .ok v} :
    (Written.number n v h).Held ↔ v.decimal = n.decimal :=
  ⟨fun | .number _ heq => heq, .number h⟩

theorem array_iff : (Written.array ws).Held ↔ ∀ w ∈ ws, w.Held :=
  ⟨fun | .array h => h, .array⟩

theorem object_iff : (Written.object ms).Held ↔ ∀ m ∈ ms, m.2.Held :=
  ⟨fun | .object h => h, .object⟩

end Held

/-! ### What is meant, and what is denoted -/

/-- An object that names each member once means its members as they stand. -/
theorem value_object {ms : List (String × Written)} (hd : Members.Distinct ms) :
    (Written.object ms).value = .object (ms.map fun m => (m.1, m.2.value)) := by
  rw [value, memberValues_eq_map, Members.ofList_of_distinct (Members.distinct_map.mpr hd)]

/-- **A document denotes what it means** exactly if its numerals are held. -/
theorem exact_value_iff {w : Written} (h : w.NamedOnce) : w.value.exact = w.exact ↔ w.Held := by
  induction h with
  | null => exact ⟨fun _ => .null, fun _ => rfl⟩
  | bool b => exact ⟨fun _ => .bool b, fun _ => rfl⟩
  | number h =>
      rw [Held.number_iff, value, Value.exact, exact, Exact.number.injEq]
  | string s => exact ⟨fun _ => .string s, fun _ => rfl⟩
  | @array ws _ ih =>
      rw [Held.array_iff, value, itemValues_eq_map, Value.exact, Value.itemExacts_eq_map, exact,
        itemExacts_eq_map, List.map_map, Exact.array.injEq, List.map_inj_left]
      exact forall₂_congr ih
  | @object ms hd _ ih =>
      rw [Held.object_iff, value_object hd, Value.exact, Value.memberExacts_eq_map, exact,
        memberExacts_eq_map, List.map_map, Exact.object.injEq, List.map_inj_left]
      refine forall₂_congr fun m hm => ?_
      rw [← ih m hm, Function.comp_apply, Prod.mk.injEq]
      exact and_iff_right rfl

/-- Documents without doubles are held. -/
theorem held_of_doubleFree {w : Written} (h : w.NamedOnce) (hf : w.value.doubleFree = true) :
    w.Held := by
  induction h with
  | null => exact .null
  | bool b => exact .bool b
  | @number n v h =>
      cases v with
      | int m => exact .number h (Numeral.decimal_of_int h).symm
      | double d => cases hf
  | string s => exact .string s
  | @array ws _ ih =>
      rw [value, itemValues_eq_map, Value.doubleFree_array, List.forall_mem_map] at hf
      exact .array fun w hw => ih w hw (hf w hw)
  | @object ms hd _ ih =>
      rw [value_object hd, Value.doubleFree_object, List.forall_mem_map] at hf
      exact .object fun m hm => ih m hm (hf m hm)

/-! ### What is meant fits -/

mutual

/-- **What is meant by a document fits**, as every numeral in it is read as a number that does. -/
theorem fits_value : (w : Written) → w.value.Fits
  | .null         => .null
  | .bool b       => .bool b
  | .number _ _ h => .number (Number.fits_of_number? h)
  | .string s     => .string s
  | .array ws     => .array (fits_itemValues ws)
  | .object ms    =>
    .object fun m hm => fits_memberValues ms m ((Members.ofList_spec (memberValues ms)).2 m hm)

theorem fits_itemValues : (ws : List Written) → ∀ v ∈ itemValues ws, v.Fits
  | [],      _, h => nomatch h
  | w :: ws, v, h => by
    rcases List.mem_cons.mp h with rfl | h
    · exact fits_value w
    · exact fits_itemValues ws v h

theorem fits_memberValues : (ms : List (String × Written)) → ∀ m ∈ memberValues ms, m.2.Fits
  | [],           _, h => nomatch h
  | (k, w) :: ms, m, h => by
    rcases List.mem_cons.mp h with rfl | h
    · exact fits_value w
    · exact fits_memberValues ms m h

end

/-! ### A text for a value -/

/-- The document is one for the value: it denotes the same, and without doubles it means the value
itself. -/
structure Spells (w : Written) (v : Value) : Prop where
  exact : w.exact = v.exact
  value : v.doubleFree = true → w.value = v

/-- Items that spell values make an array that spells the array of these. -/
theorem spells_array {ws : List Written} {vs : List Value} (h : List.Forall₂ Spells ws vs) :
    (Written.array ws).Spells (.array vs) := by
  induction h with
  | nil => exact ⟨rfl, fun _ => rfl⟩
  | @cons w v ws vs hw _ ih =>
      constructor
      · have hws := Exact.array.inj ih.exact
        rw [exact, Value.exact, itemExacts, Value.itemExacts, hw.exact, hws]
      · intro hf
        obtain ⟨hv, hvs⟩ := List.forall_mem_cons.mp (Value.doubleFree_array.mp hf)
        have hws := Value.array.inj (ih.value (Value.doubleFree_array.mpr hvs))
        rw [value, itemValues, hw.value hv, hws]

/-- Members that spell values make an object that spells the object of these, if no name comes
twice. -/
theorem spells_object {ws : List (String × Written)} {ms : Members} (hd : Members.Distinct ms)
    (h : List.Forall₂ (fun w m => w.1 = m.1 ∧ w.2.Spells m.2) ws ms) :
    (Written.object ws).Spells (.object ms) := by
  have hall : memberExacts ws = Value.memberExacts ms ∧
      ((Value.object ms).doubleFree = true → memberValues ws = ms) := by
    clear hd
    induction h with
    | nil => exact ⟨rfl, fun _ => rfl⟩
    | @cons w m ws ms hw _ ih =>
        obtain ⟨k, w⟩ := w
        obtain ⟨_, v⟩ := m
        obtain ⟨rfl, hw⟩ := hw
        constructor
        · rw [memberExacts, Value.memberExacts, hw.exact, ih.1]
        · intro hf
          obtain ⟨hv, hms⟩ := List.forall_mem_cons.mp (Value.doubleFree_object.mp hf)
          rw [memberValues, hw.value hv, ih.2 (Value.doubleFree_object.mpr hms)]
  constructor
  · rw [exact, Value.exact, hall.1]
  · intro hf
    rw [value, hall.2 hf, Members.ofList_of_distinct hd]

end Written

theorem Value.inherited_fits : Value.Inherited fun _ v => v.Fits where
  empty := .object fun _ hm => nomatch hm
  member := fun | .object h => h
  item := fun | .array h => h
  array := .array
  put := fun
    | .object h, hv => .object fun m hm => (Members.mem_put hm).elim (fun e => e ▸ hv) (h m)
  erase := fun | .object h => .object fun m hm => h m ((Members.erase_sublist _ _).subset hm)

/-- Sound values without doubles fit. -/
theorem Value.Sound.fits {d : Nat} {v : Value} (h : v.Sound d) (hf : v.doubleFree = true) :
    v.Fits := by
  induction h with
  | null => exact .null
  | bool b => exact .bool b
  | int hn => exact .number hn
  | double x => cases hf
  | string s => exact .string s
  | array _ ih => exact .array fun v hv => ih v hv (doubleFree_array.mp hf v hv)
  | object _ _ ih => exact .object fun m hm => ih m hm (doubleFree_object.mp hf m hm)

end LintGate.Json
