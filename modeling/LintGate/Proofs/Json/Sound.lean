import LintGate.Proofs.Json.Members
import LintGate.Proofs.Json.Numerals

/-!
# JSON — values that could have been read

A value is `Sound` within `d` containers if its containers nest no deeper than `d`, its objects name
each member once, and its whole numbers fit their words.  Whatever is read is sound within the
number of containers its reader allows (`sound_of_parse`).
-/

namespace LintGate.Json

/-! ### Sound values -/

namespace Value

/-- A value with at most `d` containers around one another, whose objects name each member once
and whose whole numbers fit their words. -/
inductive Sound : Nat → Value → Prop where
  | null {d : Nat} : Sound d .null
  | bool {d : Nat} (b : Bool) : Sound d (.bool b)
  | int {d : Nat} {n : Int} (h : FitsWord n) : Sound d (.number (.int n))
  | double {d : Nat} (x : Binary64) : Sound d (.number (.double x))
  | string {d : Nat} (s : String) : Sound d (.string s)
  | array {d : Nat} {vs : List Value} (h : ∀ v ∈ vs, Sound d v) : Sound (d + 1) (.array vs)
  | object {d : Nat} {ms : Members} (hd : Members.Distinct ms) (h : ∀ m ∈ ms, Sound d m.2) :
      Sound (d + 1) (.object ms)

mutual

/-- No number in the value is a double. -/
def doubleFree : Value → Bool
  | .number (.double _) => false
  | .array vs           => itemsDoubleFree vs
  | .object ms          => membersDoubleFree ms
  | _                   => true

/-- No number in the items is a double. -/
def itemsDoubleFree : List Value → Bool
  | []      => true
  | v :: vs => doubleFree v && itemsDoubleFree vs

/-- No number in the members is a double. -/
def membersDoubleFree : Members → Bool
  | []           => true
  | (_, v) :: ms => doubleFree v && membersDoubleFree ms

end

/-- An array is free of doubles exactly if its items are. -/
theorem doubleFree_array {vs : List Value} :
    (Value.array vs).doubleFree = true ↔ ∀ v ∈ vs, v.doubleFree = true := by
  rw [doubleFree]
  induction vs with
  | nil => simp [itemsDoubleFree]
  | cons v vs ih => simp only [itemsDoubleFree, Bool.and_eq_true, ih, List.forall_mem_cons]

/-- An object is free of doubles exactly if what it holds is. -/
theorem doubleFree_object {ms : Members} :
    (Value.object ms).doubleFree = true ↔ ∀ m ∈ ms, m.2.doubleFree = true := by
  rw [doubleFree]
  induction ms with
  | nil => simp [membersDoubleFree]
  | cons m ms ih => simp only [membersDoubleFree, Bool.and_eq_true, ih, List.forall_mem_cons]

namespace Sound

variable {d : Nat} {k : String} {v : Value} {ms : Members} {vs : List Value}

theorem empty : (Value.object []).Sound (d + 1) :=
  .object List.nodup_nil fun _ hm => absurd hm List.not_mem_nil

/-- The items of a sound array are sound, one level further down. -/
theorem of_mem_items (h : (Value.array vs).Sound (d + 1)) : ∀ v ∈ vs, v.Sound d := by
  cases h with
  | array h => exact h

/-- What a sound object holds is sound, one level further down. -/
theorem of_mem (h : (Value.object ms).Sound (d + 1)) : ∀ m ∈ ms, m.2.Sound d := by
  cases h with
  | object _ h => exact h

/-- A sound object names nothing twice. -/
theorem distinct (h : (Value.object ms).Sound d) : Members.Distinct ms := by
  cases h with
  | object hd _ => exact hd

/-- A sound object stays sound when a sound value is put under a name. -/
theorem put (h : (Value.object ms).Sound (d + 1)) (hv : v.Sound d) :
    (Value.object (Members.put k v ms)).Sound (d + 1) := by
  refine .object (Members.distinct_put h.distinct) ?_
  intro m hm
  rcases Members.mem_put hm with rfl | hm
  · exact hv
  · exact h.of_mem m hm

/-- A sound object stays sound when a name is taken out. -/
theorem erase (h : (Value.object ms).Sound (d + 1)) :
    (Value.object (Members.erase k ms)).Sound (d + 1) :=
  .object (Members.distinct_erase h.distinct) fun m hm =>
    h.of_mem m ((Members.erase_sublist k ms).subset hm)

end Sound

/-! ### Properties that parts inherit -/

/-- A property of values, within a number of containers around one another, that passes from a
container to its parts, and from its parts to the container they are put in. -/
structure Inherited (P : Nat → Value → Prop) : Prop where
  empty {d : Nat} : P (d + 1) (.object [])
  member {d : Nat} {ms : Members} (h : P (d + 1) (.object ms)) : ∀ m ∈ ms, P d m.2
  item {d : Nat} {vs : List Value} (h : P (d + 1) (.array vs)) : ∀ v ∈ vs, P d v
  array {d : Nat} {vs : List Value} (h : ∀ v ∈ vs, P d v) : P (d + 1) (.array vs)
  put {d : Nat} {k : String} {v : Value} {ms : Members} (h : P (d + 1) (.object ms)) (hv : P d v) :
    P (d + 1) (.object (Members.put k v ms))
  erase {d : Nat} {k : String} {ms : Members} (h : P (d + 1) (.object ms)) :
    P (d + 1) (.object (Members.erase k ms))

/-- A property that is passed down holds of what is found under a name. -/
theorem Inherited.of_get? {P : Nat → Value → Prop} (hP : Inherited P) {d : Nat} {k : String}
    {v : Value} {ms : Members} (h : P (d + 1) (.object ms)) (hk : Members.get? k ms = some v) :
    P d v :=
  hP.member h _ (Members.mem_of_get? hk)

/-- Soundness is passed down, and kept by what is done to documents. -/
theorem inherited_sound : Inherited Sound where
  empty := .empty
  member := Sound.of_mem
  item := Sound.of_mem_items
  array := .array
  put := Sound.put
  erase := Sound.erase

end Value

/-! ### Steps of a reader -/

theorem exists_of_map {ε α β : Type} {f : α → β} {x : Except ε α} {b : β}
    (h : x.map f = .ok b) : ∃ a, x = .ok a ∧ f a = b := by
  cases x with
  | error e => cases h
  | ok a => exact ⟨a, rfl, Except.ok.inj h⟩

/-- A reader in two steps that succeeds has taken both. -/
theorem exists_of_bind {ε α β : Type} {f : α → Except ε β} {x : Except ε α} {b : β}
    (h : x >>= f = .ok b) : ∃ a, x = .ok a ∧ f a = .ok b := by
  cases x with
  | error e => cases h
  | ok a => exact ⟨a, rfl, h⟩

/-- A reader that looks at the next token has found one. -/
theorem exists_of_onToken {β : Type} {e : Reason} {s : List Char} {b : β}
    {k : (c : Char) → (r : List Char) → r.length < s.length → Except Fault β}
    (h : onToken e s k = .ok b) : ∃ c r hr, skipGap s = c :: r ∧ k c r hr = .ok b := by
  rw [onToken] at h
  split at h
  · cases h
  next hs => exact ⟨_, _, _, hs, h⟩

/-! ### Numbers that are read -/

/-- A number that is read is sound. -/
theorem sound_of_number {d : Nat} {s : List Char} {x : Read Written s} (h : number s = .ok x) :
    x.value.value.Sound d := by
  obtain ⟨n, -, h⟩ := exists_of_bind h
  split at h
  next v hv =>
    cases h
    cases v with
    | int m => exact .int (fitsWord_of_number? hv)
    | double x => exact .double x
  next => cases h

/-! ### Containers that are read -/

/-- What holds of every part that is read holds of all that a container is read as. -/
theorem forall_of_parts {α : Type} {next : Bool → (s : List Char) → Except Fault (Next s)}
    {p : Reader α} {P : α → Prop} (hp : ∀ {s : List Char} {y : Read α s}, p s = .ok y → P y.value)
    {first : Bool} {s : List Char} {x : Read (List α) s} (h : parts next p first s = .ok x) :
    ∀ a ∈ x.value, P a := by
  -- by the length of the text, as each part takes something off it
  induction hn : s.length using Nat.strong_induction_on generalizing first s with
  | _ n ih =>
      subst hn
      rw [parts] at h
      split at h
      · cases h
      · cases h
        exact fun a ha => absurd ha List.not_mem_nil
      next t ht =>
        split at h
        · cases h
        next v hv =>
          split at h
          · cases h
          next vs hvs =>
            cases h
            have hshorter := Nat.lt_of_lt_of_le v.shorter t.within
            exact List.forall_mem_cons.mpr ⟨hp hv, ih _ hshorter hvs rfl⟩

/-- A member that is read holds what stands behind its colon. -/
theorem exists_of_member {α : Type} {p : Reader α} {s : List Char} {x : Read (String × α) s}
    (h : member p s = .ok x) : ∃ t, ∃ y : Read α t, p t = .ok y ∧ x.value.2 = y.value := by
  obtain ⟨k, -, h⟩ := exists_of_bind h
  obtain ⟨c, -, h⟩ := exists_of_bind h
  obtain ⟨v, hv, h⟩ := exists_of_bind h
  cases h
  exact ⟨_, v, hv, rfl⟩

/-- The value of an array is sound if the values of its items are. -/
theorem sound_array {d : Nat} {ws : List Written} (h : ∀ w ∈ ws, w.value.Sound d) :
    (Written.array ws).value.Sound (d + 1) := by
  rw [Written.value, Written.itemValues_eq_map]
  exact .array (List.forall_mem_map.mpr h)

/-- The value of an object is sound if the values of its members are: of a repeated name one value
is kept. -/
theorem sound_object {d : Nat} {ms : List (String × Written)} (h : ∀ m ∈ ms, m.2.value.Sound d) :
    (Written.object ms).value.Sound (d + 1) := by
  rw [Written.value, Written.memberValues_eq_map]
  obtain ⟨hd, hmem⟩ := Members.ofList_spec (ms.map fun m => (m.1, m.2.value))
  refine .object hd ?_
  intro m hm
  obtain ⟨w, hw, rfl⟩ := List.mem_map.mp (hmem m hm)
  exact h w hw

/-! ### Documents that are read -/

/-- **What is read is sound** within the containers its reader allows. -/
theorem sound_of_value {d : Nat} {s : List Char} {x : Read Written s} (h : value d s = .ok x) :
    x.value.value.Sound d := by
  induction d using Nat.strong_induction_on generalizing s with
  | _ d ih =>
      rw [value] at h
      obtain ⟨c, r, hr, -, h⟩ := exists_of_onToken h
      -- by the first character: three words, a string, the two containers, a number
      split at h
      · obtain ⟨t, -, rfl⟩ := exists_of_map h
        exact .null
      · obtain ⟨t, -, rfl⟩ := exists_of_map h
        exact .bool true
      · obtain ⟨t, -, rfl⟩ := exists_of_map h
        exact .bool false
      · obtain ⟨t, -, rfl⟩ := exists_of_map h
        exact .string t.value
      · split at h
        · cases h
        · obtain ⟨t, ht, rfl⟩ := exists_of_map h
          exact sound_array (forall_of_parts (ih _ (Nat.lt_succ_self _)) ht)
      · split at h
        · cases h
        · obtain ⟨t, ht, rfl⟩ := exists_of_map h
          refine sound_object (forall_of_parts ?_ ht)
          intro _ _ hm
          obtain ⟨_, y, hy, hval⟩ := exists_of_member hm
          exact hval ▸ ih _ (Nat.lt_succ_self _) hy
      · split at h
        · obtain ⟨t, ht, rfl⟩ := exists_of_map h
          have hsound : t.value.value.Sound d := sound_of_number ht
          exact hsound
        · cases h

/-- Whatever text is read, the value is sound. -/
theorem sound_of_parse {text : String} {v : Value} (h : parse text = .ok v) :
    v.Sound depthLimit := by
  obtain ⟨w, hw, rfl⟩ := exists_of_map h
  unfold parseWritten parseWith at hw
  dsimp only at hw
  split at hw
  · cases hw
  next x hx =>
    split at hw
    · cases hw
      exact sound_of_value hx
    · cases hw

end LintGate.Json
