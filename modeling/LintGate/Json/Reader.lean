import LintGate.Json.Fault
import LintGate.Json.Written

/-!
# JSON — reading values

A reader takes a value off the front of a text and gives it with the rest of the text, which is
shorter (`Read`); that the rest is shorter is what ends every loop.  A reader skips the white space
before its value.

`value depth` reads any value with at most `depth` containers around one another, as it is written;
`parse` reads a text that is one value, and gives what is meant.
-/

namespace LintGate.Json

open Text

/-- A value read off the front of `s`, and what is left. -/
structure Read (α : Type) (s : List Char) where
  /-- The value. -/
  value : α
  /-- The text after it. -/
  rest : List Char
  /-- Something was read. -/
  shorter : rest.length < s.length

/-- A text at or behind the front of `s`. -/
structure Tail (s : List Char) where
  /-- The text. -/
  rest : List Char
  /-- It is no longer than `s`. -/
  within : rest.length ≤ s.length

/-- A reader of values. -/
abbrev Reader (α : Type) := (s : List Char) → Except Fault (Read α s)

namespace Read

variable {α β : Type} {s t : List Char}

/-- The value changed, the rest kept. -/
def map (f : α → β) (r : Read α s) : Read β s :=
  ⟨f r.value, r.rest, r.shorter⟩

/-- What was read off a later text was read off an earlier one. -/
def widen (r : Read α t) (h : t.length ≤ s.length) : Read α s :=
  ⟨r.value, r.rest, Nat.lt_of_lt_of_le r.shorter h⟩

end Read

/-! ### Lengths -/

theorem length_tail_le (c : Char) (r : List Char) : r.length ≤ (c :: r).length :=
  Nat.le_succ _

theorem length_tail_lt (c : Char) (r : List Char) : r.length < (c :: r).length :=
  Nat.lt_succ_self _

theorem length_le_of_lt {r s : List Char} (h : r.length < s.length) : r.length ≤ s.length :=
  Nat.le_of_lt h

theorem length_cons_le {r s : List Char} (c : Char) (h : r.length < s.length) :
    (c :: r).length ≤ s.length :=
  h

theorem Tail.length_lt {r s : List Char} (t : Tail r) (h : r.length < s.length) :
    t.rest.length < s.length :=
  Nat.lt_of_le_of_lt t.within h

/-! ### White space and words -/

/-- White space between the parts of a document. -/
def isGap (c : Char) : Bool :=
  c == ' ' || c == '\n' || c == '\t' || c == '\r'

/-- `s` without the white space in front. -/
def skipGap (s : List Char) : List Char :=
  s.dropWhile isGap

theorem length_skipGap_le (s : List Char) : (skipGap s).length ≤ s.length :=
  (List.dropWhile_suffix isGap).length_le

theorem length_lt_of_skipGap {c : Char} {r s : List Char} (h : skipGap s = c :: r) :
    r.length < s.length := by
  have := length_skipGap_le s
  rw [h] at this
  exact this

/-- Goes on at the first character behind the white space, with a rest that is shorter than the
text, or stops for the reason `atEnd` if there is none. -/
def onToken {β : Type} (atEnd : Reason) (s : List Char)
    (k : (c : Char) → (r : List Char) → r.length < s.length → Except Fault β) : Except Fault β :=
  match h : skipGap s with
  | []     => .error (.atEnd atEnd)
  | c :: r => k c r (length_lt_of_skipGap h)

theorem onToken_of_skipGap {β : Type} {atEnd : Reason} {s : List Char}
    {k : (c : Char) → (r : List Char) → r.length < s.length → Except Fault β}
    {c : Char} {r : List Char} (h : skipGap s = c :: r) :
    onToken atEnd s k = k c r (length_lt_of_skipGap h) := by
  unfold onToken
  split
  · next h' => rw [h] at h'; cases h'
  · next h' => rw [h] at h'; cases h'; rfl

theorem onToken_of_skipGap_nil {β : Type} {atEnd : Reason} {s : List Char}
    {k : (c : Char) → (r : List Char) → r.length < s.length → Except Fault β}
    (h : skipGap s = []) : onToken atEnd s k = .error (.atEnd atEnd) := by
  unfold onToken
  split
  · rfl
  · next h' => rw [h] at h'; cases h'

/-- Takes the rest of a word off the front of a text. -/
def word : List Char → (s : List Char) → Except Fault (Tail s)
  | [], s               => .ok ⟨s, Nat.le_refl _⟩
  | _ :: _, []          => .error (.atEnd .endInValue)
  | w :: ws, c :: s =>
    if c = w then
      match word ws s with
      | .ok t    => .ok ⟨t.rest, Nat.le_succ_of_le t.within⟩
      | .error e => .error e
    else .error (.here .wordWanted (c :: s))

/-! ### Numbers -/

/-- A fault where a digit is wanted; the end of the text may have a reason of its own. -/
def digitWanted (atEnd : Reason) (s : List Char) : Fault :=
  if s.isEmpty then .atEnd atEnd else .here .badNumber s

/-- One digit or more. -/
def digits (atEnd : Reason) : Reader (List Char) := fun s =>
  match s with
  | []     => .error (digitWanted atEnd [])
  | c :: r =>
    if isDigit c then
      .ok ⟨c :: r.takeWhile isDigit, r.dropWhile isDigit,
        Nat.lt_succ_of_le (List.dropWhile_suffix isDigit).length_le⟩
    else .error (digitWanted atEnd (c :: r))

/-- The digits before the point: a zero stands alone. -/
def wholeDigits (atEnd : Reason) : Reader (List Char) := fun s =>
  match s with
  | '0' :: c :: r =>
    if isDigit c then .error (.here .badNumber (c :: r))
    else .ok ⟨['0'], c :: r, length_tail_lt '0' (c :: r)⟩
  | s => digits atEnd s

/-- The point and the digits after it, if there is one. -/
def fractionDigits (atEnd : Reason) (s : List Char) : Except Fault (List Char × Tail s) :=
  match s with
  | '.' :: r =>
    match digits atEnd r with
    | .ok f    => .ok (f.value, ⟨f.rest, Nat.le_succ_of_le (Nat.le_of_lt f.shorter)⟩)
    | .error e => .error e
  | s => .ok ([], ⟨s, Nat.le_refl _⟩)

/-- The sign of an exponent, a minus or not, and what follows it. -/
def exponentSign (s : List Char) : Bool × Tail s :=
  match s with
  | '+' :: r => (false, ⟨r, length_tail_le '+' r⟩)
  | '-' :: r => (true, ⟨r, length_tail_le '-' r⟩)
  | s        => (false, ⟨s, Nat.le_refl _⟩)

/-- The exponent, if there is one. -/
def exponentPart (atEnd : Reason) (s : List Char) :
    Except Fault (Option (Bool × List Char) × Tail s) :=
  match s with
  | c :: r =>
    if c = 'e' ∨ c = 'E' then
      let sign := exponentSign r
      match digits atEnd sign.2.rest with
      | .ok d    =>
        .ok (some (sign.1, d.value),
          ⟨d.rest, Nat.le_succ_of_le (Nat.le_trans (Nat.le_of_lt d.shorter) sign.2.within)⟩)
      | .error e => .error e
    else .ok (none, ⟨c :: r, Nat.le_refl _⟩)
  | [] => .ok (none, ⟨[], Nat.le_refl _⟩)

/-- A numeral without its sign. -/
def unsignedNumeral (atEnd : Reason) (negative : Bool) : Reader Numeral := fun s => do
  let w ← wholeDigits atEnd s
  let (fs, f) ← fractionDigits atEnd w.rest
  let (e, x) ← exponentPart atEnd f.rest
  .ok ⟨⟨negative, w.value, fs, e⟩, x.rest,
    Nat.lt_of_le_of_lt (Nat.le_trans x.within f.within) w.shorter⟩

/-- A numeral.  The end of the text in place of a digit has the reason `atEnd`. -/
def numeral (atEnd : Reason) : Reader Numeral := fun s =>
  match s with
  | '-' :: r => (unsignedNumeral atEnd true r).map (·.widen (length_tail_le '-' r))
  | s        => unsignedNumeral atEnd false s

/-- A number, as it is written. -/
def number : Reader Written := fun s => do
  let n ← numeral .endInValue s
  match h : n.value.number? with
  | .ok v       => .ok (n.map fun _ => .number n.value v h)
  | .error left => .error ⟨.outOfRange, left + Utf8.size n.rest⟩

/-! ### Strings -/

/-- The value of a hexadecimal digit. -/
def hexValue? (c : Char) : Option Nat :=
  if '0' ≤ c ∧ c ≤ '9' then some (c.toNat - '0'.toNat)
  else if 'a' ≤ c ∧ c ≤ 'f' then some (c.toNat - 'a'.toNat + 10)
  else if 'A' ≤ c ∧ c ≤ 'F' then some (c.toNat - 'A'.toNat + 10)
  else none

/-- The character of an escape of one letter. -/
def escape? (c : Char) : Option Char :=
  match c with
  | '"'  => some '"'
  | '\\' => some '\\'
  | '/'  => some '/'
  | 'b'  => some '\x08'
  | 'f'  => some '\x0c'
  | 'n'  => some '\n'
  | 'r'  => some '\r'
  | 't'  => some '\t'
  | _    => none

/-- The four hexadecimal digits of a code unit.  Four bytes are taken before they are looked at. -/
def codeUnit : Reader Nat := fun s =>
  let fault : Fault :=
    if Utf8.size s < 4 then .atEnd .endInString else ⟨.badEscape, Utf8.size s - 4⟩
  match s with
  | a :: b :: c :: d :: r =>
    match hexValue? a, hexValue? b, hexValue? c, hexValue? d with
    | some a, some b, some c, some d =>
      .ok ⟨((a * 16 + b) * 16 + c) * 16 + d, r,
        Nat.lt_succ_of_lt (Nat.lt_succ_of_lt (Nat.lt_succ_of_lt (Nat.lt_succ_self _)))⟩
    | _, _, _, _ => .error fault
  | _ => .error fault

/-- The first half of a surrogate pair. -/
def isLeading (u : Nat) : Bool :=
  0xD800 ≤ u && u ≤ 0xDBFF

/-- The second half of a surrogate pair. -/
def isTrailing (u : Nat) : Bool :=
  0xDC00 ≤ u && u ≤ 0xDFFF

/-- The code unit that has to follow a leading surrogate. -/
def partner : Reader Nat := fun s =>
  match s with
  | []          => .error (.atEnd .endInString)
  | '\\' :: r =>
    match r with
    | []        => .error (.atEnd .endInString)
    | 'u' :: r' => (codeUnit r').map (·.widen (Nat.le_succ_of_le (Nat.le_succ _)))
    | c :: r'   => .error (.here .partnerWanted (c :: r'))
  | c :: r      => .error (.here .partnerWanted (c :: r))

/-- The character of an escape by code units, behind its `u`. -/
def codePoint : Reader Char := fun s => do
  let u ← codeUnit s
  if isTrailing u.value then .error (.before .loneSurrogate u.rest)
  else if isLeading u.value then
    let v ← partner u.rest
    if isTrailing v.value then
      .ok ⟨Char.ofNat (0x10000 + (u.value - 0xD800) * 0x400 + (v.value - 0xDC00)), v.rest,
        Nat.lt_trans v.shorter u.shorter⟩
    else .error (.before .loneSurrogate v.rest)
  else .ok (u.map Char.ofNat)

/-- The character of an escape, behind its backslash. -/
def escape : Reader Char := fun s =>
  match s with
  | []     => .error (.atEnd .endInString)
  | c :: r =>
    if c = 'u' then (codePoint r).map (·.widen (length_tail_le c r))
    else
      match escape? c with
      | some e => .ok ⟨e, r, length_tail_lt c r⟩
      | none   => .error (.here .badEscape (c :: r))

/-- The characters of a string behind its opening quote. -/
def stringTail : Reader (List Char) := fun s =>
  match s with
  | []     => .error (.atEnd .endInString)
  | c :: r =>
    if c = '"' then .ok ⟨[], r, length_tail_lt c r⟩
    else if c = '\\' then
      match escape r with
      | .error e => .error e
      | .ok x =>
        match stringTail x.rest with
        | .error e => .error e
        | .ok t =>
          .ok ⟨x.value :: t.value, t.rest,
            Nat.lt_succ_of_lt (Nat.lt_trans t.shorter x.shorter)⟩
    else if c < ' ' then .error (.before .controlCharacter r)
    else
      match stringTail r with
      | .error e => .error e
      | .ok t    => .ok ⟨c :: t.value, t.rest, Nat.lt_succ_of_lt t.shorter⟩
termination_by s => s.length
decreasing_by
  · have := x.shorter; simp; omega
  · simp

/-- A string behind its opening quote. -/
def string : Reader String := fun s =>
  (stringTail s).map (Read.map String.ofList)

/-! ### Containers -/

/-- Where an array or object goes on. -/
inductive Next (s : List Char) where
  /-- The container ended; this follows it. -/
  | done (rest : List Char) (shorter : rest.length < s.length)
  /-- An item, or a key behind its quote, is to be read here. -/
  | more (tail : Tail s)

/-- Goes on in an array, at its first item or behind one. -/
def nextItem (first : Bool) (s : List Char) : Except Fault (Next s) :=
  onToken .endInArray s fun c r hs =>
    if c = ']' then .ok (.done r hs)
    else if first then .ok (.more ⟨c :: r, length_cons_le c hs⟩)
    else if c = ',' then
      onToken .endInValue r fun d t ht =>
        if d = ']' then .error (.here .commaBeforeEnd (d :: t))
        else .ok (.more ⟨d :: t, Nat.le_trans (length_cons_le d ht) (length_le_of_lt hs)⟩)
    else .error (.here .itemEndWanted (c :: r))

/-- Goes on in an object, at its first key or behind a member. -/
def nextKey (first : Bool) (s : List Char) : Except Fault (Next s) :=
  onToken .endInObject s fun c r hs =>
    if c = '\x7d' then .ok (.done r hs)
    else if first then
      if c = '"' then .ok (.more ⟨r, length_le_of_lt hs⟩) else .error (.here .keyWanted (c :: r))
    else if c = ',' then
      onToken .endInValue r fun d t ht =>
        if d = '"' then .ok (.more ⟨t, Nat.le_trans (Nat.le_of_lt ht) (length_le_of_lt hs)⟩)
        else if d = '\x7d' then .error (.here .commaBeforeEnd (d :: t))
        else .error (.here .keyWanted (d :: t))
    else .error (.here .memberEndWanted (c :: r))

/-- The colon behind a key. -/
def colon (s : List Char) : Except Fault (Tail s) :=
  onToken .endInObject s fun c r hs =>
    if c = ':' then .ok ⟨r, length_le_of_lt hs⟩ else .error (.here .colonWanted (c :: r))

/-- A key behind its opening quote, its colon, and its value read by `p`. -/
def member {α : Type} (p : Reader α) : Reader (String × α) := fun s => do
  let k ← string s
  let c ← colon k.rest
  let v ← p c.rest
  .ok ⟨(k.value, v.value), v.rest,
    Nat.lt_trans (Nat.lt_of_lt_of_le v.shorter c.within) k.shorter⟩

/-- What a container holds, each part read by `p` where `next` goes on, up to its end. -/
def parts {α : Type} (next : Bool → (s : List Char) → Except Fault (Next s)) (p : Reader α)
    (first : Bool) : Reader (List α) := fun s =>
  match next first s with
  | .error e         => .error e
  | .ok (.done r h)  => .ok ⟨[], r, h⟩
  | .ok (.more t) =>
    match p t.rest with
    | .error e => .error e
    | .ok v =>
      match parts next p false v.rest with
      | .error e => .error e
      | .ok vs =>
        .ok ⟨v.value :: vs.value, vs.rest,
          Nat.lt_of_lt_of_le (Nat.lt_trans vs.shorter v.shorter) t.within⟩
termination_by s => s.length
decreasing_by exact Nat.lt_of_lt_of_le v.shorter t.within

/-- The items of an array, read by `p`, behind its opening bracket. -/
def items {α : Type} (p : Reader α) : Reader (List α) :=
  parts nextItem p true

/-- The members of an object, with values read by `p`, behind its opening brace. -/
def members {α : Type} (p : Reader α) : Reader (List (String × α)) :=
  parts nextKey (member p) true

/-! ### Values -/

/-- A value, as it is written, with at most `depth` containers around one another. -/
def value (depth : Nat) : Reader Written := fun s =>
  onToken .endInValue s fun c r hs =>
    match c with
    | 'n'    => (word ['u', 'l', 'l'] r).map fun t => ⟨.null, t.rest, t.length_lt hs⟩
    | 't'    => (word ['r', 'u', 'e'] r).map fun t => ⟨.bool true, t.rest, t.length_lt hs⟩
    | 'f'    => (word ['a', 'l', 's', 'e'] r).map fun t => ⟨.bool false, t.rest, t.length_lt hs⟩
    | '"'    => (string r).map fun t => (t.map Written.string).widen (length_le_of_lt hs)
    | '['    =>
      match depth with
      | 0     => .error (.here .tooDeep (c :: r))
      | d + 1 => (items (value d) r).map fun t => (t.map Written.array).widen (length_le_of_lt hs)
    | '\x7b' =>
      match depth with
      | 0     => .error (.here .tooDeep (c :: r))
      | d + 1 =>
        (members (value d) r).map fun t => (t.map Written.object).widen (length_le_of_lt hs)
    | _      =>
      if c = '-' ∨ isDigit c then (number (c :: r)).map (·.widen (length_cons_le c hs))
      else .error (.here .valueWanted (c :: r))

/-- The number of containers a document may have around one another. -/
def depthLimit : Nat := 127

/-- The value a whole text stands for, read by `p`. -/
def parseWith {α : Type} (p : Reader α) (text : String) : Except Misread α :=
  let s := text.toList
  match p s with
  | .error e => .error (e.locate s)
  | .ok v    =>
    match skipGap v.rest with
    | []     => .ok v.value
    | c :: r => .error ((Fault.here .excess (c :: r)).locate s)

/-- The document a text spells, as it is written. -/
def parseWritten (text : String) : Except Misread Written :=
  parseWith (value depthLimit) text

/-- The document a text means. -/
def parse (text : String) : Except Misread Value :=
  (parseWritten text).map Written.value

end LintGate.Json
