import Mathlib.Data.List.Nodup
import LintGate.Json.Written

/-!
# JSON — members named once

An object names each member once (`Distinct`).  Putting a member and taking one out keep that, and
keep the members of other names as they are, in their order (`others_put`, `others_erase`).  Where
members are put one after the other, a name has the last of its values (`get?_ofList`).
-/

namespace LintGate.Json.Members

variable {α : Type} {k : String} {v : α} {ms : List (String × α)}

/-- Each member is named once. -/
def Distinct (ms : List (String × α)) : Prop := (keys ms).Nodup

/-- The members of other names. -/
def others (k : String) (ms : List (String × α)) : List (String × α) :=
  ms.filter fun m => m.1 != k

theorem distinct_cons {m : String × α} :
    Distinct (m :: ms) ↔ m.1 ∉ keys ms ∧ Distinct ms :=
  List.nodup_cons

/-! ### Looking up -/

/-- Nothing is found exactly under a name that is not there. -/
theorem get?_eq_none_iff : get? k ms = none ↔ k ∉ keys ms := by
  induction ms with
  | nil => simp [get?, keys]
  | cons m ms ih =>
      obtain ⟨k', v'⟩ := m
      by_cases hk : k' = k
      · simp [get?, keys, hk]
      · simp only [get?, if_neg hk, ih, keys, List.map_cons, List.mem_cons, not_or]
        exact ⟨fun h => ⟨Ne.symm hk, h⟩, fun h => h.2⟩

/-- What is found under a name is there with it. -/
theorem mem_of_get? (h : get? k ms = some v) : (k, v) ∈ ms := by
  induction ms with
  | nil => cases h
  | cons m ms ih =>
      obtain ⟨k', v'⟩ := m
      by_cases hk : k' = k
      · rw [get?, if_pos hk] at h
        cases h
        exact hk ▸ List.mem_cons_self
      · rw [get?, if_neg hk] at h
        exact List.mem_cons_of_mem _ (ih h)

theorem mem_keys_of_get? (h : get? k ms = some v) : k ∈ keys ms :=
  List.mem_map_of_mem (mem_of_get? h)

/-- A member is found by its name. -/
theorem get?_of_mem (hd : Distinct ms) {m : String × α} (h : m ∈ ms) : get? m.1 ms = some m.2 := by
  induction ms with
  | nil => cases h
  | cons m' ms ih =>
      obtain ⟨k', v'⟩ := m'
      obtain ⟨hnew, hms⟩ := distinct_cons.mp hd
      rcases List.mem_cons.mp h with rfl | h
      · rw [get?, if_pos rfl]
      · have hne : k' ≠ m.1 := fun e => hnew (List.mem_map.mpr ⟨m, h, e.symm⟩)
        rw [get?, if_neg hne, ih hms h]

theorem mem_others {m : String × α} : m ∈ others k ms ↔ m ∈ ms ∧ m.1 ≠ k := by
  rw [others, List.mem_filter, bne_iff_ne]

theorem others_cons_self (v : α) (ms : List (String × α)) :
    others k ((k, v) :: ms) = others k ms :=
  List.filter_cons_of_neg (by simp)

theorem others_cons_of_ne {k' : String} (h : k' ≠ k) (v : α) (ms : List (String × α)) :
    others k ((k', v) :: ms) = (k', v) :: others k ms :=
  List.filter_cons_of_pos (bne_iff_ne.mpr h)

/-! ### Putting -/

/-- What is put under a new name comes last. -/
theorem put_of_not_mem (h : k ∉ keys ms) : put k v ms = ms ++ [(k, v)] := by
  induction ms with
  | nil => rfl
  | cons m ms ih =>
      obtain ⟨k', v'⟩ := m
      have hne : k' ≠ k := fun e => h (e ▸ List.mem_cons_self)
      have hms : k ∉ keys ms := fun hm => h (List.mem_cons_of_mem _ hm)
      rw [put, if_neg hne, ih hms, List.cons_append]

/-- Putting something under a name that is there leaves the names and their order. -/
theorem keys_put_of_mem (h : k ∈ keys ms) : keys (put k v ms) = keys ms := by
  induction ms with
  | nil => cases h
  | cons m ms ih =>
      obtain ⟨k', v'⟩ := m
      by_cases hk : k' = k
      · rw [put, if_pos hk, hk]
        rfl
      · have hms : k ∈ keys ms := (List.mem_cons.mp h).resolve_left (Ne.symm hk)
        rw [put, if_neg hk]
        exact congrArg (k' :: ·) (ih hms)

/-- A member that is put keeps its place, and a new one comes last. -/
theorem keys_put (k : String) (v : α) (ms : List (String × α)) :
    keys (put k v ms) = if k ∈ keys ms then keys ms else keys ms ++ [k] := by
  split
  next h => exact keys_put_of_mem h
  next h => rw [put_of_not_mem h, keys, List.map_append]; rfl

/-- Putting what is there already changes nothing. -/
theorem put_of_get? (h : get? k ms = some v) : put k v ms = ms := by
  induction ms with
  | nil => cases h
  | cons m ms ih =>
      obtain ⟨k', v'⟩ := m
      by_cases hk : k' = k
      · rw [get?, if_pos hk] at h
        cases h
        rw [put, if_pos hk, hk]
      · rw [get?, if_neg hk] at h
        rw [put, if_neg hk, ih h]

/-- What is there after a putting is the new member, or was there before. -/
theorem mem_put {m : String × α} (h : m ∈ put k v ms) : m = (k, v) ∨ m ∈ ms := by
  induction ms with
  | nil => exact .inl (List.mem_singleton.mp h)
  | cons m' ms ih =>
      obtain ⟨k', v'⟩ := m'
      by_cases hk : k' = k
      · rw [put, if_pos hk] at h
        exact (List.mem_cons.mp h).imp id (List.mem_cons_of_mem _)
      · rw [put, if_neg hk] at h
        rcases List.mem_cons.mp h with rfl | h
        · exact .inr List.mem_cons_self
        · exact (ih h).imp id (List.mem_cons_of_mem _)

/-- Putting something under a name keeps names apart. -/
theorem distinct_put (h : Distinct ms) : Distinct (put k v ms) := by
  by_cases hk : k ∈ keys ms
  · rwa [Distinct, keys_put_of_mem hk]
  · rw [put_of_not_mem hk, Distinct, keys, List.map_append]
    refine List.nodup_append.mpr ⟨h, List.nodup_singleton k, ?_⟩
    rintro j hj _ hk' rfl
    obtain rfl : j = k := List.mem_singleton.mp hk'
    exact hk hj

/-- Putting something under a name leaves the other members and their order. -/
theorem others_put : others k (put k v ms) = others k ms := by
  induction ms with
  | nil => simp [others, put]
  | cons m ms ih =>
      obtain ⟨k', v'⟩ := m
      by_cases hk : k' = k
      · subst hk
        rw [put, if_pos rfl, others_cons_self, others_cons_self]
      · rw [put, if_neg hk, others_cons_of_ne hk, others_cons_of_ne hk, ih]

/-- Of two things put under one name the later stays. -/
theorem put_put (k : String) (v w : α) (ms : List (String × α)) :
    put k v (put k w ms) = put k v ms := by
  induction ms with
  | nil => exact if_pos rfl
  | cons m ms ih =>
      obtain ⟨k', v'⟩ := m
      by_cases hk : k' = k
      · rw [put, if_pos hk, put, if_pos rfl, put, if_pos hk]
      · rw [put, if_neg hk, put, if_neg hk, put, if_neg hk, ih]

/-- Putting a member makes up for wanting it to be there. -/
theorem put_ensure (k : String) (v w : α) (ms : List (String × α)) :
    put k v (ensure k w ms) = put k v ms := by
  rw [ensure]
  split
  · rfl
  · exact put_put k v w ms

theorem others_of_not_mem (h : k ∉ keys ms) : others k ms = ms := by
  refine List.filter_eq_self.mpr ?_
  intro m hm
  rw [bne_iff_ne]
  rintro rfl
  exact h (List.mem_map_of_mem hm)

/-- Wherever a member is put, the object is it and the others. -/
theorem put_perm (h : Distinct ms) : (put k v ms).Perm ((k, v) :: others k ms) := by
  induction ms with
  | nil => exact .refl _
  | cons m ms ih =>
      obtain ⟨k', v'⟩ := m
      obtain ⟨hnew, hms⟩ := distinct_cons.mp h
      by_cases hk : k' = k
      · subst hk
        rw [put, if_pos rfl, others_cons_self, others_of_not_mem hnew]
      · rw [put, if_neg hk, others_cons_of_ne hk]
        exact ((ih hms).cons _).trans (.swap _ _ _)

/-! ### Taking out -/

/-- Taking a name out leaves the order of what stays. -/
theorem erase_sublist (k : String) (ms : List (String × α)) : (erase k ms).Sublist ms := by
  induction ms with
  | nil => exact .slnil
  | cons m ms ih =>
      obtain ⟨k', v'⟩ := m
      by_cases hk : k' = k
      · rw [erase, if_pos hk]
        exact List.sublist_cons_self _ _
      · rw [erase, if_neg hk]
        exact ih.cons_cons _

/-- Taking a name out keeps names apart. -/
theorem distinct_erase (h : Distinct ms) : Distinct (erase k ms) :=
  ((erase_sublist k ms).map Prod.fst).nodup h

/-- What was taken out is not found. -/
theorem get?_erase_self (h : Distinct ms) : get? k (erase k ms) = none := by
  induction ms with
  | nil => rfl
  | cons m ms ih =>
      obtain ⟨k', v'⟩ := m
      obtain ⟨hnew, hms⟩ := distinct_cons.mp h
      by_cases hk : k' = k
      · rw [erase, if_pos hk]
        exact get?_eq_none_iff.mpr (hk ▸ hnew)
      · rw [erase, if_neg hk, get?, if_neg hk, ih hms]

/-- Taking a name out leaves the other members and their order. -/
theorem others_erase : others k (erase k ms) = others k ms := by
  induction ms with
  | nil => rfl
  | cons m ms ih =>
      obtain ⟨k', v'⟩ := m
      by_cases hk : k' = k
      · subst hk
        rw [erase, if_pos rfl, others_cons_self]
      · rw [erase, if_neg hk, others_cons_of_ne hk, others_cons_of_ne hk, ih]

theorem erase_of_not_mem (h : k ∉ keys ms) : erase k ms = ms := by
  induction ms with
  | nil => rfl
  | cons m ms ih =>
      obtain ⟨k', v'⟩ := m
      have hne : k' ≠ k := fun e => h (e ▸ List.mem_cons_self)
      have hms : k ∉ keys ms := fun hm => h (List.mem_cons_of_mem _ hm)
      rw [erase, if_neg hne, ih hms]

/-- What is left are the others. -/
theorem erase_eq_others (h : Distinct ms) : erase k ms = others k ms := by
  rw [← others_erase, others_of_not_mem (get?_eq_none_iff.mp (get?_erase_self h))]

/-- What was put under a name leaves with the name. -/
theorem erase_put (k : String) (v : α) (ms : List (String × α)) :
    erase k (put k v ms) = erase k ms := by
  induction ms with
  | nil => exact if_pos rfl
  | cons m ms ih =>
      obtain ⟨k', v'⟩ := m
      by_cases hk : k' = k
      · rw [put, if_pos hk, erase, if_pos rfl, erase, if_pos hk]
      · rw [put, if_neg hk, erase, if_neg hk, erase, if_neg hk, ih]

/-! ### Values changed -/

section

variable {β : Type} {f : α → β}

theorem distinct_map : Distinct (ms.map fun m => (m.1, f m.2)) ↔ Distinct ms := by
  rw [Distinct, Distinct, keys, keys, List.map_map]
  rfl

theorem get?_map : get? k (ms.map fun m => (m.1, f m.2)) = (get? k ms).map f := by
  induction ms with
  | nil => rfl
  | cons m ms ih =>
      obtain ⟨k', v'⟩ := m
      rw [List.map_cons, get?, get?, ih]
      split <;> rfl

theorem put_map : put k (f v) (ms.map fun m => (m.1, f m.2)) =
    (put k v ms).map fun m => (m.1, f m.2) := by
  induction ms with
  | nil => rfl
  | cons m ms ih =>
      obtain ⟨k', v'⟩ := m
      rw [List.map_cons, put, put, ih]
      split <;> rfl

theorem others_map : others k (ms.map fun m => (m.1, f m.2)) =
    (others k ms).map fun m => (m.1, f m.2) :=
  List.filter_map

end

/-- With a member put in each, objects of the same names are equal if the members are, and the
others. -/
theorem put_eq_put_iff {w : α} {ns : List (String × α)} (hkeys : keys ms = keys ns)
    (hd : Distinct ms) : put k v ms = put k w ns ↔ v = w ∧ others k ms = others k ns := by
  induction ms generalizing ns with
  | nil =>
      obtain rfl : ns = [] := List.map_eq_nil_iff.mp hkeys.symm
      simp [put]
  | cons m ms ih =>
      obtain ⟨⟨_, b⟩, ns, rfl, rfl, hrest⟩ := List.map_eq_cons_iff.mp hkeys.symm
      obtain ⟨k', a⟩ := m
      obtain ⟨hnew, hms⟩ := distinct_cons.mp hd
      have hrest : keys ns = keys ms := hrest
      by_cases hk : k' = k
      · subst hk
        have hnew' : k' ∉ keys ns := by rwa [hrest]
        rw [put, if_pos rfl, put, if_pos rfl, others_cons_self, others_cons_self,
          others_of_not_mem hnew, others_of_not_mem hnew', List.cons.injEq, Prod.mk.injEq]
        exact and_congr_left fun _ => and_iff_right rfl
      · rw [put, if_neg hk, put, if_neg hk, others_cons_of_ne hk, others_cons_of_ne hk,
          List.cons.injEq, List.cons.injEq, ih hrest.symm hms]
        exact and_left_comm

/-! ### Members one after the other -/

/-- Members named once are an object as they stand. -/
theorem ofList_of_distinct (h : Distinct ms) : ofList ms = ms := by
  -- what has been put so far stands in front, and none of its names comes again
  suffices ∀ (acc ms : List (String × α)), Distinct (acc ++ ms) →
      ms.foldl (fun acc m => put m.1 m.2 acc) acc = acc ++ ms from this [] ms h
  intro acc ms
  induction ms generalizing acc with
  | nil => intro _; rw [List.foldl_nil, List.append_nil]
  | cons m ms ih =>
      intro hd
      have hnew : m.1 ∉ keys acc := by
        intro hm
        rw [Distinct, keys, List.map_append, List.map_cons] at hd
        exact (List.nodup_append.mp hd).2.2 _ hm _ List.mem_cons_self rfl
      have hassoc : acc ++ [(m.1, m.2)] ++ ms = acc ++ m :: ms := by
        rw [List.append_assoc, List.singleton_append]
      rw [List.foldl_cons, put_of_not_mem hnew, ih _ (hassoc ▸ hd), hassoc]

/-- Whatever members are put one after the other, each is named once, and each is one of them. -/
theorem ofList_spec (ms : List (String × α)) :
    Distinct (ofList ms) ∧ ∀ m ∈ ofList ms, m ∈ ms := by
  suffices ∀ (acc ms : List (String × α)), Distinct acc →
      Distinct (ms.foldl (fun acc m => put m.1 m.2 acc) acc) ∧
      ∀ m ∈ ms.foldl (fun acc m => put m.1 m.2 acc) acc, m ∈ acc ∨ m ∈ ms by
    obtain ⟨hd, hmem⟩ := this [] ms List.nodup_nil
    exact ⟨hd, fun m hm => (hmem m hm).resolve_left List.not_mem_nil⟩
  intro acc ms
  induction ms generalizing acc with
  | nil => exact fun hd => ⟨hd, fun m hm => .inl hm⟩
  | cons m ms ih =>
      intro hd
      obtain ⟨hd', hmem⟩ := ih (put m.1 m.2 acc) (distinct_put hd)
      refine ⟨hd', ?_⟩
      intro n hn
      rcases hmem n hn with hn | hn
      · exact (mem_put hn).elim (fun e => .inr (e ▸ List.mem_cons_self)) .inl
      · exact .inr (List.mem_cons_of_mem _ hn)

/-! ### All values of a name -/

/-- The values of a name, as often as it is there. -/
def named (k : String) (ms : List (String × α)) : List α :=
  (ms.filter fun m => m.1 == k).map Prod.snd

theorem named_cons_self (k : String) (v : α) (ms : List (String × α)) :
    named k ((k, v) :: ms) = v :: named k ms := by
  rw [named, List.filter_cons_of_pos (by simp), List.map_cons, named]

theorem named_cons_of_ne {k' : String} (h : k' ≠ k) (v : α) (ms : List (String × α)) :
    named k ((k', v) :: ms) = named k ms := by
  rw [named, List.filter_cons_of_neg (by simpa using h), named]

/-- A name has as many values as it has places. -/
theorem length_named (k : String) (ms : List (String × α)) :
    (named k ms).length = (keys ms).count k := by
  rw [named, List.length_map, keys, List.count, List.countP_map, List.countP_eq_length_filter]
  rfl

/-- A name that is not repeated has no value or one. -/
theorem named_of_count_le_one (h : (keys ms).count k ≤ 1) :
    named k ms = [] ∨ ∃ v, named k ms = [v] := by
  rw [← length_named] at h
  rcases hn : named k ms with _ | ⟨v, _ | ⟨u, vs⟩⟩
  · exact .inl rfl
  · exact .inr ⟨v, rfl⟩
  · rw [hn] at h
    simp at h

/-- The values of a name are there with it. -/
theorem mem_of_mem_named (h : v ∈ named k ms) : (k, v) ∈ ms := by
  obtain ⟨m, hm, rfl⟩ := List.mem_map.mp h
  obtain ⟨hmem, hk⟩ := List.mem_filter.mp hm
  obtain rfl : m.1 = k := by simpa using hk
  exact hmem

theorem named_map {β : Type} {f : α → β} :
    named k (ms.map fun m => (m.1, f m.2)) = (named k ms).map f := by
  rw [named, named, List.filter_map, List.map_map, List.map_map]
  rfl

/-- Of members put one after the other the last one of a name is found. -/
theorem get?_ofList (k : String) (ms : List (String × α)) :
    get? k (ofList ms) = (named k ms).getLast? := by
  -- what has been put before counts as long as the name does not come
  suffices ∀ acc : List (String × α), get? k (ms.foldl (fun acc m => put m.1 m.2 acc) acc) =
      (named k ms).getLast?.or (get? k acc) by
    rw [ofList, this, get?, Option.or_none]
  induction ms with
  | nil => exact fun acc => rfl
  | cons m ms ih =>
      obtain ⟨k', v⟩ := m
      intro acc
      rw [List.foldl_cons, ih]
      by_cases hk : k' = k
      · subst hk
        rw [get?_put_self, named_cons_self, List.getLast?_cons]
        cases (named k' ms).getLast? <;> rfl
      · rw [get?_put_of_ne hk, named_cons_of_ne hk]

end LintGate.Json.Members
