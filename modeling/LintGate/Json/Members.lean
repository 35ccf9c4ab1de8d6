/-!
# JSON — the members of an object

The members of an object are kept in the order in which they were written.  A member that is put
keeps the place of the member it replaces, and otherwise comes last (`get?_put_self`,
`get?_put_of_ne`); taking one out leaves the others as they are.  A member that is only wanted to be
there is left as it is if it is (`get?_ensure`).
-/

namespace LintGate.Json.Members

variable {α : Type}

/-- The value of the member named `k`. -/
def get? (k : String) : List (String × α) → Option α
  | []            => none
  | (k', v) :: ms => if k' = k then some v else get? k ms

/-- `ms` with the value `v` under the name `k`. -/
def put (k : String) (v : α) : List (String × α) → List (String × α)
  | []             => [(k, v)]
  | (k', v') :: ms => if k' = k then (k, v) :: ms else (k', v') :: put k v ms

/-- `ms` with a member named `k`: the one it has, or else `v`. -/
def ensure (k : String) (v : α) (ms : List (String × α)) : List (String × α) :=
  match get? k ms with
  | some _ => ms
  | none   => put k v ms

/-- `ms` without the member named `k`. -/
def erase (k : String) : List (String × α) → List (String × α)
  | []            => []
  | (k', v) :: ms => if k' = k then ms else (k', v) :: erase k ms

/-- The names of the members, in order. -/
def keys (ms : List (String × α)) : List String :=
  ms.map Prod.fst

theorem get?_put_self (k : String) (v : α) (ms : List (String × α)) :
    get? k (put k v ms) = some v := by
  induction ms with
  | nil => simp [put, get?]
  | cons m ms ih =>
    obtain ⟨k', v'⟩ := m
    by_cases h : k' = k <;> simp [put, get?, h, ih]

theorem get?_put_of_ne {k k' : String} (h : k' ≠ k) (v : α) (ms : List (String × α)) :
    get? k (put k' v ms) = get? k ms := by
  induction ms with
  | nil => simp [put, get?, h]
  | cons m ms ih =>
    obtain ⟨j, w⟩ := m
    by_cases hj : j = k'
    · subst hj; simp [put, get?, h]
    · simp [put, get?, hj, ih]

theorem get?_ensure (k : String) (v : α) (ms : List (String × α)) :
    get? k (ensure k v ms) = some ((get? k ms).getD v) := by
  rw [ensure]
  split
  next w h => rw [h, Option.getD_some]
  next h => rw [h, Option.getD_none, get?_put_self]

theorem ensure_of_get? {k : String} {w : α} {ms : List (String × α)} (h : get? k ms = some w)
    (v : α) : ensure k v ms = ms := by
  rw [ensure, h]

theorem get?_erase_of_ne {k k' : String} (h : k' ≠ k) (ms : List (String × α)) :
    get? k (erase k' ms) = get? k ms := by
  induction ms with
  | nil => rfl
  | cons m ms ih =>
    obtain ⟨j, w⟩ := m
    by_cases hj : j = k'
    · subst hj; simp [erase, get?, h]
    · simp [erase, get?, hj, ih]

end LintGate.Json.Members
