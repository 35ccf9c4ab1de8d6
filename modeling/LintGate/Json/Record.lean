import LintGate.Json.Skip

/-!
# JSON — records

A record is read straight from the text, without building a value first.  It is written as an
object of its fields in any order, or as an array of them in their declared order.  In an object a
field may stand once, and a member that is no field is passed over; in an array the last fields may
be left out, if the record allows it, and nothing may follow the last.
-/

namespace LintGate.Json

open Text

/-- The fault of a value that stands where `wanted` is wanted.  The value is read first, so a fault
inside it comes before its being the wrong one; a container is not entered. -/
def wrongKind (wanted : String) (s : List Char) : Fault :=
  match s with
  | '[' :: _    => .before (.wrongKind .array wanted) s
  | '\x7b' :: _ => .before (.wrongKind .object wanted) s
  | _           =>
    match value 0 s with
    | .error e => e
    | .ok v    => .before (.wrongKind (.scalar v.value.value) wanted) v.rest

/-- A truth value. -/
def readBool : Reader Bool := fun s =>
  onToken .endInValue s fun c r hs =>
    match c with
    | 't' => (word ['r', 'u', 'e'] r).map fun t =>
      ⟨true, t.rest, t.length_lt hs⟩
    | 'f' => (word ['a', 'l', 's', 'e'] r).map fun t =>
      ⟨false, t.rest, t.length_lt hs⟩
    | _   => .error (wrongKind "a boolean" (c :: r))

/-- A string. -/
def readString : Reader String := fun s =>
  onToken .endInValue s fun c r hs =>
    if c = '"' then (string r).map (·.widen (length_le_of_lt hs))
    else .error (wrongKind "a string" (c :: r))

/-- A field of a record under construction. -/
structure Field (σ : Type) where
  /-- The name of the field. -/
  name : String
  /-- The field has been read. -/
  given : σ → Bool
  /-- Reads the field and stores it. -/
  read : σ → Reader σ

/-- A kind of record: `σ` holds its fields while they are read, and `α` is the finished record. -/
structure Record (σ α : Type) where
  /-- What the record is called in messages. -/
  name : String
  /-- No field read yet. -/
  empty : σ
  /-- The fields in their declared order. -/
  fields : List (Field σ)
  /-- The record of the fields read. -/
  finish : σ → Except Reason α
  /-- The record of the fields read from an array that ended after the given number of them. -/
  short : Nat → σ → Except Reason α

namespace Record

variable {σ α : Type}

/-- The end of an array that has all fields. -/
def closing (s : List Char) : Except Fault (Tail s) :=
  onToken .endInArray s fun c r hs =>
    if c = ']' then .ok ⟨r, length_le_of_lt hs⟩
    else if c = ',' then
      match skipGap r with
      | ']' :: t => .error (.here .commaBeforeEnd (']' :: t))
      | t        => .error (.here .excess t)
    else .error (.here .excess (c :: r))

/-- A result, or the fault of its reason with `s` unread. -/
def orFault (s : List Char) : Except Reason α → Except Fault α
  | .ok a    => .ok a
  | .error r => .error (.before r s)

/-- The fields `fs` of a record from an array, behind `count` of them. -/
def fromItems (d : Record σ α) : (count : Nat) → List (Field σ) → σ → (s : List Char) →
    Except Fault (α × Tail s)
  | _, [], st, s => do
    let t ← closing s
    let a ← orFault t.rest (d.finish st)
    .ok (a, t)
  | n, f :: fs, st, s =>
    match nextItem (n == 0) s with
    | .error e        => .error e
    | .ok (.done r h) =>
      (orFault r (d.short n st)).map fun a => (a, ⟨r, Nat.le_of_lt h⟩)
    | .ok (.more t) =>
      match f.read st t.rest with
      | .error e => .error e
      | .ok v =>
        (fromItems d (n + 1) fs v.value v.rest).map fun p =>
          (p.1, ⟨p.2.rest, Nat.le_trans p.2.within
            (Nat.le_of_lt (Nat.lt_of_lt_of_le v.shorter t.within))⟩)

/-- A member of a record behind the opening quote of its key. -/
def member (d : Record σ α) (st : σ) : Reader σ := fun s =>
  match string s with
  | .error e => .error e
  | .ok k =>
    match d.fields.find? (·.name == k.value) with
    | some f =>
      if f.given st then .error (.before (.repeatedField f.name) (skipGap k.rest))
      else
        match colon k.rest with
        | .error e => .error e
        | .ok t    =>
          (f.read st t.rest).map
            (·.widen (Nat.le_trans t.within (Nat.le_of_lt k.shorter)))
    | none =>
      match colon k.rest with
      | .error e => .error e
      | .ok t    =>
        (skipValue t.rest).map fun v =>
          (v.map fun _ => st).widen (Nat.le_trans t.within (Nat.le_of_lt k.shorter))

/-- The members of a record up to its closing brace. -/
def fromMembers (d : Record σ α) (first : Bool) (st : σ) : Reader σ := fun s =>
  match nextKey first s with
  | .error e        => .error e
  | .ok (.done r h) => .ok ⟨st, r, h⟩
  | .ok (.more t) =>
    match d.member st t.rest with
    | .error e => .error e
    | .ok m =>
      (fromMembers d false m.value m.rest).map
        (·.widen (Nat.le_of_lt (Nat.lt_of_lt_of_le m.shorter t.within)))
termination_by s => s.length
decreasing_by
  have := m.shorter; have := t.within; omega

/-- A record. -/
def read (d : Record σ α) : Reader α := fun s =>
  onToken .endInValue s fun c r hs =>
    match c with
    | '['    =>
      (d.fromItems 0 d.fields d.empty r).map fun p =>
        ⟨p.1, p.2.rest, Nat.lt_of_le_of_lt p.2.within hs⟩
    | '\x7b' =>
      match d.fromMembers true d.empty r with
      | .error e => .error e
      | .ok st   =>
        (orFault st.rest (d.finish st.value)).map fun a =>
          ⟨a, st.rest, Nat.lt_trans st.shorter hs⟩
    | _      => .error (wrongKind d.name (c :: r))

end Record

end LintGate.Json
