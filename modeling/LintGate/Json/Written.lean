import LintGate.Json.Numeral

/-!
# JSON — values as they are written

What a text spells, before it is taken to mean something: numbers are still numerals, and an object
has its members as often as they stand in the text.  `Written.value` is what is meant: each numeral
is its number, and a member that stands more than once has its first place and its last value.  Two
documents can be compared (`beq_iff`).
-/

namespace LintGate.Json

/-- `ms` put one after the other into an object without members. -/
def Members.ofList {α : Type} (ms : List (String × α)) : List (String × α) :=
  ms.foldl (fun acc m => Members.put m.1 m.2 acc) []

/-- A value as it is written.  A numeral comes with its number. -/
inductive Written where
  | null
  | bool (b : Bool)
  | number (n : Numeral) (v : Number) (means : n.number? = .ok v)
  | string (s : String)
  | array (items : List Written)
  | object (members : List (String × Written))

namespace Written

mutual

/-- What is meant. -/
def value : Written → Value
  | .null         => .null
  | .bool b       => .bool b
  | .number _ v _ => .number v
  | .string s     => .string s
  | .array ws     => .array (itemValues ws)
  | .object ms    => .object (Members.ofList (memberValues ms))

/-- What is meant by items. -/
def itemValues : List Written → List Value
  | []      => []
  | w :: ws => value w :: itemValues ws

/-- What is meant by members, each as it stands. -/
def memberValues : List (String × Written) → Members
  | []           => []
  | (k, w) :: ms => (k, value w) :: memberValues ms

end

theorem itemValues_eq_map (ws : List Written) : itemValues ws = ws.map value := by
  induction ws with
  | nil => rfl
  | cons w ws ih => simp [itemValues, ih]

theorem memberValues_eq_map (ms : List (String × Written)) :
    memberValues ms = ms.map fun m => (m.1, m.2.value) := by
  induction ms with
  | nil => rfl
  | cons m ms ih => obtain ⟨k, w⟩ := m; simp [memberValues, ih]

/-! ### Equality -/

mutual

/-- The same document. -/
def beq : Written → Written → Bool
  | .null, .null                 => true
  | .bool a, .bool b             => a == b
  | .number m u _, .number n v _ => m == n && u == v
  | .string s, .string t         => s == t
  | .array vs, .array ws         => beqItems vs ws
  | .object ms, .object ns       => beqMembers ms ns
  | _, _                         => false

/-- The same items. -/
def beqItems : List Written → List Written → Bool
  | [], []           => true
  | v :: vs, w :: ws => beq v w && beqItems vs ws
  | _, _             => false

/-- The same members in the same order. -/
def beqMembers : List (String × Written) → List (String × Written) → Bool
  | [], []                     => true
  | (j, v) :: ms, (k, w) :: ns => j == k && beq v w && beqMembers ms ns
  | _, _                       => false

end

mutual

theorem beq_iff : (v w : Written) → (beq v w = true ↔ v = w)
  | .null, w         => by cases w <;> simp [beq]
  | .bool _, w       => by cases w <;> simp [beq]
  | .number _ _ _, w => by cases w <;> simp [beq]
  | .string _, w     => by cases w <;> simp [beq]
  | .array vs, w     => by cases w <;> simp [beq, beqItems_iff vs]
  | .object ms, w    => by cases w <;> simp [beq, beqMembers_iff ms]

theorem beqItems_iff : (vs ws : List Written) → (beqItems vs ws = true ↔ vs = ws)
  | [], ws      => by cases ws <;> simp [beqItems]
  | v :: vs, ws => by cases ws <;> simp [beqItems, beq_iff v, beqItems_iff vs]

theorem beqMembers_iff : (ms ns : List (String × Written)) → (beqMembers ms ns = true ↔ ms = ns)
  | [], ns           => by cases ns <;> simp [beqMembers]
  | (_, v) :: ms, ns => by
      cases ns <;> simp [beqMembers, beq_iff v, beqMembers_iff ms, Prod.ext_iff]

end

instance : DecidableEq Written := fun v w =>
  decidable_of_iff (beq v w = true) (beq_iff v w)

end Written

end LintGate.Json
