import LintGate.Json.Reader

/-!
# JSON — passing over values

A value nobody asks for is passed over without being built.  What is passed over is checked less
than what is read: containers may nest without limit, a number may be of any size, and an escape by
code unit stands for nothing, so a surrogate needs no partner.  Every text that can be read can
also be passed over.
-/

namespace LintGate.Json

/-- Passes over an escape behind its backslash. -/
def skipEscape : Reader Unit := fun s =>
  match s with
  | []     => .error (.atEnd .endInString)
  | c :: r =>
    if c = 'u' then (codeUnit r).map fun u => (u.map fun _ => ()).widen (length_tail_le c r)
    else
      match escape? c with
      | some _ => .ok ⟨(), r, length_tail_lt c r⟩
      | none   => .error (.here .badEscape (c :: r))

/-- Passes over a string behind its opening quote.  A control character is left unread. -/
def skipString : Reader Unit := fun s =>
  match s with
  | []     => .error (.atEnd .endInString)
  | c :: r =>
    if c = '"' then .ok ⟨(), r, length_tail_lt c r⟩
    else if c = '\\' then
      match skipEscape r with
      | .error e => .error e
      | .ok x    => (skipString x.rest).map (·.widen (Nat.le_succ_of_le (Nat.le_of_lt x.shorter)))
    else if c < ' ' then .error (.before .controlCharacter (c :: r))
    else (skipString r).map (·.widen (length_tail_le c r))
termination_by s => s.length
decreasing_by
  · exact Nat.lt_succ_of_lt x.shorter
  · exact Nat.lt_succ_self _

/-- Passes over a key and its colon. -/
def skipKey : Reader Unit := fun s =>
  onToken .endInObject s fun c r hs =>
    if c = '"' then do
      let k ← skipString r
      let t ← colon k.rest
      .ok ⟨(), t.rest, Nat.lt_of_le_of_lt t.within (Nat.lt_trans k.shorter hs)⟩
    else .error (.here .keyWanted (c :: r))

/-- A value may begin where the item that holds it begins. -/
theorem before_of_le {m n : Nat} (h : m ≤ n) :
    Prod.Lex (· < ·) (· < ·) (m, 0) (n, 1) := by
  rcases Nat.lt_or_eq_of_le h with h | h
  · exact Prod.Lex.left _ _ h
  · exact h ▸ Prod.Lex.right _ Nat.zero_lt_one

mutual

/-- Passes over a value. -/
def skipValue (s : List Char) : Except Fault (Read Unit s) :=
  onToken .endInValue s fun c r hs =>
    match c with
    | 'n'    => (word ['u', 'l', 'l'] r).map fun t =>
      ⟨(), t.rest, t.length_lt hs⟩
    | 't'    => (word ['r', 'u', 'e'] r).map fun t =>
      ⟨(), t.rest, t.length_lt hs⟩
    | 'f'    => (word ['a', 'l', 's', 'e'] r).map fun t =>
      ⟨(), t.rest, t.length_lt hs⟩
    | '"'    => (skipString r).map (·.widen (length_le_of_lt hs))
    | '['    => (skipItems true r).map (·.widen (length_le_of_lt hs))
    | '\x7b' => (skipMembers true r).map (·.widen (length_le_of_lt hs))
    | _      =>
      if c = '-' ∨ isDigit c then
        (numeral .badNumber (c :: r)).map fun t => (t.map fun _ => ()).widen (length_cons_le c hs)
      else .error (.here .valueWanted (c :: r))
termination_by (s.length, 0)
decreasing_by all_goals exact Prod.Lex.left _ _ hs

/-- Passes over the items of an array up to its closing bracket. -/
def skipItems (first : Bool) (s : List Char) : Except Fault (Read Unit s) :=
  onToken .endInArray s fun c r hs =>
    if c = ']' then .ok ⟨(), r, hs⟩
    else if first then
      match skipValue (c :: r) with
      | .error e => .error e
      | .ok v    =>
        (skipItems false v.rest).map (·.widen
          (Nat.le_trans (Nat.le_of_lt v.shorter) (length_cons_le c hs)))
    else if c = ',' then
      match skipValue r with
      | .error e => .error e
      | .ok v    =>
        (skipItems false v.rest).map (·.widen (Nat.le_of_lt (Nat.lt_trans v.shorter hs)))
    else .error (.here .itemEndWanted (c :: r))
termination_by (s.length, 1)
decreasing_by
  · exact before_of_le hs
  · exact Prod.Lex.left _ _ (Nat.lt_of_lt_of_le v.shorter hs)
  · exact Prod.Lex.left _ _ hs
  · exact Prod.Lex.left _ _ (Nat.lt_trans v.shorter hs)

/-- Passes over the members of an object up to its closing brace. -/
def skipMembers (first : Bool) (s : List Char) : Except Fault (Read Unit s) :=
  onToken .endInObject s fun c r hs =>
    if c = '\x7d' then .ok ⟨(), r, hs⟩
    else
      let start : Except Fault (Tail s) :=
        if first then .ok ⟨c :: r, length_cons_le c hs⟩
        else if c = ',' then .ok ⟨r, length_le_of_lt hs⟩
        else .error (.here .memberEndWanted (c :: r))
      match start with
      | .error e => .error e
      | .ok t =>
        match skipKey t.rest with
        | .error e => .error e
        | .ok k =>
          match skipValue k.rest with
          | .error e => .error e
          | .ok v    =>
            (skipMembers false v.rest).map (·.widen (Nat.le_of_lt
              (Nat.lt_trans v.shorter (Nat.lt_of_lt_of_le k.shorter t.within))))
termination_by (s.length, 1)
decreasing_by
  · exact Prod.Lex.left _ _ (Nat.lt_of_lt_of_le k.shorter t.within)
  · exact Prod.Lex.left _ _ (Nat.lt_trans v.shorter (Nat.lt_of_lt_of_le k.shorter t.within))

end

end LintGate.Json
