import Mathlib.Data.List.Forall2
import LintGate.Proofs.Json.Same

/-!
# JSON — values alike

Two values that name each member once and are the same (`Value.Alike`) are so part by part
(`Value.alike_iff`): arrays place by place, and objects name by name, both ways round, though only
the members of one are looked up in the other.  What passes from the parts to the whole holds of all
values alike (`Value.Alike.induct`), and so they are an equivalence (`Value.Alike.symm`,
`Value.Alike.trans`).  Looking up, putting and taking out keep values alike.
-/

namespace LintGate.Json

/-! ### Lists and lookups that agree -/

section

variable {α β γ : Type} {R : α → β → Prop} {S : β → γ → Prop} {T : α → γ → Prop}

/-- Two lists related item by item to the same one are related by what the relations come to. -/
theorem forall₂_comp (hT : ∀ a b c, R a b → S b c → T a c) {as : List α} {bs : List β}
    {cs : List γ} (h : List.Forall₂ R as bs) (h' : List.Forall₂ S bs cs) :
    List.Forall₂ T as cs := by
  induction h generalizing cs with
  | nil =>
      cases h'
      exact .nil
  | cons hab _ ih =>
      cases h' with
      | cons hbc h' => exact .cons (hT _ _ _ hab hbc) (ih h')

/-- A relation that also says something of each side alone says it of all items. -/
theorem forall₂_and {p : α → Prop} {q : β → Prop} {as : List α} {bs : List β} :
    List.Forall₂ (fun a b => p a ∧ q b ∧ R a b) as bs ↔
      (∀ a ∈ as, p a) ∧ (∀ b ∈ bs, q b) ∧ List.Forall₂ R as bs := by
  constructor
  · intro h
    induction h with
    | nil => simp
    | cons hab _ ih => simpa [hab.1, hab.2] using ih
  · rintro ⟨hp, hq, h⟩
    induction h with
    | nil => exact .nil
    | cons hab _ ih =>
        obtain ⟨hpa, hp⟩ := List.forall_mem_cons.mp hp
        obtain ⟨hqb, hq⟩ := List.forall_mem_cons.mp hq
        exact .cons ⟨hpa, hqb, hab⟩ (ih hp hq)

/-- A test that related items pass alike is passed by some item of both lists or of neither. -/
theorem any_of_forall₂ {as : List α} {bs : List β} (h : List.Forall₂ R as bs) {p : α → Bool}
    {q : β → Bool} (hpq : ∀ a b, R a b → p a = q b) : as.any p = bs.any q := by
  induction h with
  | nil => rfl
  | cons hab _ ih => rw [List.any_cons, List.any_cons, hpq _ _ hab, ih]

theorem isEmpty_of_forall₂ {as : List α} {bs : List β} (h : List.Forall₂ R as bs) :
    as.isEmpty = bs.isEmpty := by
  cases h <;> rfl

variable {o : Option α} {p : Option β} {q : Option γ}

/-- Only related values that are there have to be related again. -/
theorem rel_imp {R' : α → β → Prop} (hR : ∀ a b, o = some a → p = some b → R a b → R' a b)
    (h : Option.Rel R o p) : Option.Rel R' o p := by
  cases h with
  | some hab => exact .some (hR _ _ rfl rfl hab)
  | none => exact .none

theorem rel_symm {S : β → α → Prop} (hS : ∀ a b, R a b → S b a) (h : Option.Rel R o p) :
    Option.Rel S p o := by
  cases h with
  | some hab => exact .some (hS _ _ hab)
  | none => exact .none

theorem rel_comp (hT : ∀ a b c, R a b → S b c → T a c) (h : Option.Rel R o p)
    (h' : Option.Rel S p q) : Option.Rel T o q := by
  cases h with
  | some hab =>
      cases h' with
      | some hbc => exact .some (hT _ _ _ hab hbc)
  | none =>
      cases h'
      exact .none

/-- What is looked up in related values is related, if each step keeps to that. -/
theorem rel_bind (h : Option.Rel R o p) {α' β' : Type} {R' : α' → β' → Prop} {f : α → Option α'}
    {g : β → Option β'} (hfg : ∀ a b, R a b → Option.Rel R' (f a) (g b)) :
    Option.Rel R' (o.bind f) (p.bind g) := by
  cases h with
  | some hab => exact hfg _ _ hab
  | none => exact .none

/-- What related values come to is the same, if related values come to the same. -/
theorem bind_of_rel (h : Option.Rel R o p) {δ : Type} {f : α → Option δ} {g : β → Option δ}
    (hfg : ∀ a b, R a b → f a = g b) : o.bind f = p.bind g := by
  cases h with
  | some hab => exact hfg _ _ hab
  | none => rfl

theorem rel_getD {a : α} {b : β} (hab : R a b) (h : Option.Rel R o p) :
    R (o.getD a) (p.getD b) := by
  cases h with
  | some h => exact h
  | none => exact hab

theorem none_iff_of_rel (h : Option.Rel R o p) : o = none ↔ p = none := by
  cases h with
  | some _ => simp
  | none => simp

/-- Where one value is there, so is the one it is related to. -/
theorem exists_of_rel (h : Option.Rel R o p) {a : α} (ho : o = some a) :
    ∃ b, p = some b ∧ R a b := by
  subst ho
  cases h with
  | some hab => exact ⟨_, rfl, hab⟩

end

namespace Value

/-! ### Part by part -/

/-- Values of one kind, with parts that are related: the items place by place, and the members name
by name. -/
inductive Parallel (R : Value → Value → Prop) : Value → Value → Prop where
  | null : Parallel R .null .null
  | bool (b : Bool) : Parallel R (.bool b) (.bool b)
  | int (n : Int) : Parallel R (.number (.int n)) (.number (.int n))
  | double {a b : Binary64} (hunits : a.units = b.units)
      (hsign : a.negative = b.negative ∨ a.units = 0) :
      Parallel R (.number (.double a)) (.number (.double b))
  | string (s : String) : Parallel R (.string s) (.string s)
  | array {vs ws : List Value} (h : List.Forall₂ R vs ws) : Parallel R (.array vs) (.array ws)
  | object {ms ns : Members} (hms : Members.Distinct ms) (hns : Members.Distinct ns)
      (h : ∀ k, Option.Rel R (Members.get? k ms) (Members.get? k ns)) :
      Parallel R (.object ms) (.object ns)

namespace Parallel

variable {R S T : Value → Value → Prop} {u v w : Value}

/-- The relation on the parts read backwards gives the one on the whole read backwards. -/
theorem symm (hS : ∀ v w, R v w → S w v) (h : Parallel R v w) : Parallel S w v := by
  cases h with
  | null => exact .null
  | bool b => exact .bool b
  | int n => exact .int n
  | double hunits hsign => exact .double hunits.symm (hunits ▸ hsign.imp_left Eq.symm)
  | string s => exact .string s
  | array h => exact .array (h.imp hS).flip
  | object hms hns h => exact .object hns hms fun k => rel_symm hS (h k)

/-- Relations on the parts compose to the relation on the whole. -/
theorem comp (hT : ∀ u v w, R u v → S v w → T u w) (h : Parallel R u v) (h' : Parallel S v w) :
    Parallel T u w := by
  cases h with
  | null =>
      cases h'
      exact .null
  | bool b =>
      cases h'
      exact .bool b
  | int n =>
      cases h'
      exact .int n
  | double hunits hsign =>
      cases h' with
      | double hunits' hsign' =>
          refine .double (hunits.trans hunits') ?_
          rcases hsign with hsign | hzero
          · exact hsign'.imp hsign.trans hunits.trans
          · exact .inr hzero
  | string s =>
      cases h'
      exact .string s
  | array h =>
      cases h' with
      | array h' => exact .array (forall₂_comp hT h h')
  | object hms _ h =>
      cases h' with
      | object _ hns h' => exact .object hms hns fun k => rel_comp hT (h k) (h' k)

end Parallel

/-- Values that name each member once, and are the same. -/
structure Alike (v w : Value) : Prop where
  left : v.NamedOnce
  right : w.NamedOnce
  same : v.same w = true

/-- Items are the same as others exactly if they are so one by one. -/
theorem sameItems_iff {vs ws : List Value} :
    sameItems vs ws = true ↔ List.Forall₂ (fun v w => v.same w = true) vs ws := by
  induction vs generalizing ws with
  | nil =>
      cases ws with
      | nil => exact iff_of_true rfl .nil
      | cons w ws => exact iff_of_false Bool.false_ne_true (fun h => nomatch h)
  | cons v vs ih =>
      cases ws with
      | nil => exact iff_of_false Bool.false_ne_true (fun h => nomatch h)
      | cons w ws => rw [sameItems, Bool.and_eq_true, List.forall₂_cons, ih]

/-- Of two objects that are the same each has the names of the other, as it has as many. -/
theorem keys_perm_of_same {ms ns : Members} (hms : Members.Distinct ms)
    (h : (Value.object ms).same (.object ns) = true) :
    (Members.keys ms).Perm (Members.keys ns) := by
  obtain ⟨hlength, hfound⟩ := same_object_iff.mp h
  have hsub : Members.keys ms ⊆ Members.keys ns := by
    intro k hk
    obtain ⟨m, hm, rfl⟩ := List.mem_map.mp hk
    obtain ⟨w, hw, -⟩ := hfound m hm
    exact Members.mem_keys_of_get? hw
  refine (List.subperm_of_subset hms hsub).perm_of_length_le ?_
  rw [Members.keys, Members.keys, List.length_map, List.length_map, hlength]

/-- Objects with names of their own are the same exactly if they have the same under every name. -/
theorem same_object_iff_get? {ms ns : Members} (hms : Members.Distinct ms)
    (hns : Members.Distinct ns) : (Value.object ms).same (.object ns) = true ↔
      ∀ k, Option.Rel (fun v w => v.same w = true) (Members.get? k ms) (Members.get? k ns) := by
  constructor
  · intro h k
    cases hk : Members.get? k ms with
    | some v =>
        obtain ⟨w, hw, hvw⟩ := (same_object_iff.mp h).2 (k, v) (Members.mem_of_get? hk)
        rw [hw]
        exact .some hvw
    | none =>
        rw [Members.get?_eq_none_iff, (keys_perm_of_same hms h).mem_iff,
          ← Members.get?_eq_none_iff] at hk
        rw [hk]
        exact .none
  · intro h
    refine same_object_iff.mpr ⟨?_, ?_⟩
    · have hkeys : (Members.keys ms).Perm (Members.keys ns) := by
        refine (List.perm_ext_iff_of_nodup hms hns).mpr fun k => not_iff_not.mp ?_
        rw [← Members.get?_eq_none_iff, ← Members.get?_eq_none_iff]
        exact none_iff_of_rel (h k)
      simpa [Members.keys] using hkeys.length_eq
    · intro m hm
      exact exists_of_rel (h m.1) (Members.get?_of_mem hms hm)

/-- Arrays are alike item by item. -/
theorem alike_array_iff {vs ws : List Value} :
    (Value.array vs).Alike (.array ws) ↔ List.Forall₂ Alike vs ws := by
  constructor
  · rintro ⟨hvs, hws, h⟩
    refine (forall₂_and.mpr ⟨hvs.of_mem_items, hws.of_mem_items, sameItems_iff.mp h⟩).imp ?_
    exact fun v w h => ⟨h.1, h.2.1, h.2.2⟩
  · intro h
    obtain ⟨hvs, hws, h⟩ := forall₂_and.mp (h.imp fun v w h => ⟨h.left, h.right, h.same⟩)
    exact ⟨.array hvs, .array hws, sameItems_iff.mpr h⟩

/-- Objects are alike exactly if each name stands for at most one thing, and for the like in both.
-/
theorem alike_object_iff {ms ns : Members} : (Value.object ms).Alike (.object ns) ↔
    Members.Distinct ms ∧ Members.Distinct ns ∧
      ∀ k, Option.Rel Alike (Members.get? k ms) (Members.get? k ns) := by
  constructor
  · rintro ⟨hms, hns, h⟩
    refine ⟨hms.distinct, hns.distinct, fun k => ?_⟩
    refine rel_imp ?_ ((same_object_iff_get? hms.distinct hns.distinct).mp h k)
    intro v w hv hw hvw
    exact ⟨hms.of_mem _ (Members.mem_of_get? hv), hns.of_mem _ (Members.mem_of_get? hw), hvw⟩
  · rintro ⟨hms, hns, h⟩
    refine ⟨.object hms fun m hm => ?_, .object hns fun m hm => ?_, ?_⟩
    · obtain ⟨w, -, hw⟩ := exists_of_rel (h m.1) (Members.get?_of_mem hms hm)
      exact hw.left
    · obtain ⟨v, -, hv⟩ := exists_of_rel (rel_symm (fun _ _ => Alike.right) (h m.1))
        (Members.get?_of_mem hns hm)
      exact hv
    · refine (same_object_iff_get? hms hns).mpr fun k => ?_
      exact rel_imp (fun v w _ _ h => h.same) (h k)

/-- Numbers have no parts, so only the numbers themselves count. -/
theorem parallel_number_iff {R : Value → Value → Prop} {m n : Number} :
    Parallel R (.number m) (.number n) ↔ m.same n = true := by
  constructor
  · intro h
    cases h with
    | int n => exact beq_self_eq_true n
    | double hunits hsign => simpa [Number.same, Binary64.same] using ⟨hunits, hsign⟩
  · intro h
    cases m with
    | int m =>
        cases n with
        | int n =>
            obtain rfl : m = n := eq_of_beq h
            exact .int m
        | double b => cases h
    | double a =>
        cases n with
        | int n => cases h
        | double b =>
            obtain ⟨hunits, hsign⟩ : a.units = b.units ∧ (a.negative = b.negative ∨ a.units = 0) :=
              by simpa [Number.same, Binary64.same] using h
            exact .double hunits hsign

/-- **What it is for values to be alike**: they are of one kind, and their parts are alike, items
place by place and members name by name. -/
theorem alike_iff {v w : Value} : v.Alike w ↔ Parallel Alike v w := by
  constructor
  · intro h
    cases v with
    | null =>
        cases w with
        | null => exact .null
        | _ => cases h.same
    | bool a =>
        cases w with
        | bool b =>
            obtain rfl : a = b := eq_of_beq h.same
            exact .bool a
        | _ => cases h.same
    | number m =>
        cases w with
        | number n => exact parallel_number_iff.mpr h.same
        | _ => cases h.same
    | string s =>
        cases w with
        | string t =>
            obtain rfl : s = t := eq_of_beq h.same
            exact .string s
        | _ => cases h.same
    | array vs =>
        cases w with
        | array ws => exact .array (alike_array_iff.mp h)
        | _ => cases h.same
    | object ms =>
        cases w with
        | object ns =>
            obtain ⟨hms, hns, h⟩ := alike_object_iff.mp h
            exact .object hms hns h
        | _ => cases h.same
  · intro h
    cases h with
    | null => exact ⟨.null, .null, rfl⟩
    | bool b => exact ⟨.bool b, .bool b, beq_self_eq_true b⟩
    | int n => exact ⟨.number _, .number _, beq_self_eq_true n⟩
    | double hunits hsign =>
        exact ⟨.number _, .number _, (parallel_number_iff (R := Alike)).mp (.double hunits hsign)⟩
    | string s => exact ⟨.string s, .string s, beq_self_eq_true s⟩
    | array h => exact alike_array_iff.mpr h
    | object hms hns h => exact alike_object_iff.mpr ⟨hms, hns, h⟩

namespace Alike

variable {u v w : Value} {ms ns : Members} {k : String}

/-- What passes from the parts to the whole holds of all values alike. -/
theorem induct {P : Value → Value → Prop}
    (step : ∀ v w, Parallel (fun v w => v.Alike w ∧ P v w) v w → P v w) (h : v.Alike w) :
    P v w := by
  -- on the value to the left: its items and members come first, whatever they are alike to
  have hv := h.left
  induction hv generalizing w with
  | null =>
      cases alike_iff.mp h
      exact step _ _ .null
  | bool b =>
      cases alike_iff.mp h
      exact step _ _ (.bool b)
  | number m =>
      cases alike_iff.mp h with
      | int n => exact step _ _ (.int n)
      | double hunits hsign => exact step _ _ (.double hunits hsign)
  | string s =>
      cases alike_iff.mp h
      exact step _ _ (.string s)
  | array _ ih =>
      cases alike_iff.mp h with
      | array hitems =>
          refine step _ _ (.array ?_)
          exact ((List.forall₂_and_left _ _).mpr ⟨ih, hitems⟩).imp fun v w h => ⟨h.2, h.1 h.2⟩
  | object _ _ ih =>
      cases alike_iff.mp h with
      | object hms hns hmembers =>
          refine step _ _ (.object hms hns fun k => rel_imp ?_ (hmembers k))
          exact fun v w hv _ h => ⟨h, ih _ (Members.mem_of_get? hv) h⟩

/-- A value is like itself if its objects name nothing twice. -/
theorem refl (h : v.NamedOnce) : v.Alike v :=
  ⟨h, h, same_refl h⟩

theorem symm (h : v.Alike w) : w.Alike v := by
  refine induct (P := fun v w => w.Alike v) ?_ h
  exact fun v w h => alike_iff.mpr (h.symm fun _ _ h => h.2)

/-- Likeness passes on. -/
theorem trans (h : u.Alike v) (h' : v.Alike w) : u.Alike w := by
  refine induct (P := fun u v => ∀ w, v.Alike w → u.Alike w) ?_ h w h'
  intro u v h w h'
  exact alike_iff.mpr (h.comp (fun _ _ _ h h' => h.2 _ h') (alike_iff.mp h'))

/-! ### What is looked up and what is put in -/

/-- Alike values have the like under every name. -/
theorem get? (h : v.Alike w) (k : String) : Option.Rel Alike (v.get? k) (w.get? k) := by
  cases alike_iff.mp h with
  | object _ _ hmembers => exact hmembers k
  | _ => exact .none

/-- Alike values have alike items. -/
theorem items? (h : v.Alike w) : Option.Rel (List.Forall₂ Alike) v.items? w.items? := by
  cases alike_iff.mp h with
  | array hitems => exact .some hitems
  | _ => exact .none

/-- Alike values are the same text, if they are any. -/
theorem text? (h : v.Alike w) : v.text? = w.text? := by
  cases alike_iff.mp h <;> rfl

theorem nil : (Value.object []).Alike (.object []) :=
  .refl .nil

/-- Putting the like under one name keeps objects alike. -/
theorem put (h : (Value.object ms).Alike (.object ns)) (k : String) (hvw : v.Alike w) :
    (Value.object (Members.put k v ms)).Alike (.object (Members.put k w ns)) := by
  obtain ⟨hms, hns, h⟩ := alike_object_iff.mp h
  refine alike_object_iff.mpr ⟨Members.distinct_put hms, Members.distinct_put hns, fun j => ?_⟩
  by_cases hj : k = j
  · subst hj
    rw [Members.get?_put_self, Members.get?_put_self]
    exact .some hvw
  · rw [Members.get?_put_of_ne hj, Members.get?_put_of_ne hj]
    exact h j

/-- Taking one name out keeps objects alike. -/
theorem erase (h : (Value.object ms).Alike (.object ns)) (k : String) :
    (Value.object (Members.erase k ms)).Alike (.object (Members.erase k ns)) := by
  obtain ⟨hms, hns, h⟩ := alike_object_iff.mp h
  refine alike_object_iff.mpr ⟨Members.distinct_erase hms, Members.distinct_erase hns, fun j => ?_⟩
  by_cases hj : k = j
  · subst hj
    rw [Members.get?_erase_self hms, Members.get?_erase_self hns]
    exact .none
  · rw [Members.get?_erase_of_ne hj, Members.get?_erase_of_ne hj]
    exact h j

theorem isEmpty (h : (Value.object ms).Alike (.object ns)) : ms.isEmpty = ns.isEmpty := by
  rw [Bool.eq_iff_iff, List.isEmpty_iff_length_eq_zero, List.isEmpty_iff_length_eq_zero,
    (same_object_iff.mp h.same).1]

end Alike

end Value

end LintGate.Json
