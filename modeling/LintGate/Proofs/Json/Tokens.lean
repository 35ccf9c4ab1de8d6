import Mathlib.Data.List.DropRight
import LintGate.Proofs.Json.Parts
import LintGate.Proofs.Json.Sound

/-!
# JSON — what a reader went through

What stands in a text that a value has been read off.  Its first token says of which kind the value
is (`Opens`, `Opens.of_takes`).  A container has been read part by part (`PartsAt`,
`PartsAt.of_takes`), each where the container goes on: at the next token, or behind a comma
(`skipGap_of_goesOnAt_item`, `skipGap_of_goesOnAt_key`).
-/

namespace LintGate.Json

variable {α : Type} {s t r : List Char}

/-- Behind white space there is no more of it. -/
theorem skipGap_skipGap (s : List Char) : skipGap (skipGap s) = skipGap s :=
  List.dropWhile_idempotent isGap s

/-- What a gap stands before is at its own front. -/
theorem skipGap_cons_of_skipGap {c : Char} (h : skipGap s = c :: r) : skipGap (c :: r) = c :: r := by
  rw [← h, skipGap_skipGap]

theorem Reader.takes_of_eq_ok {p : Reader α} {x : Read α s} (h : p s = .ok x) :
    p.Takes s x.value x.rest := by
  rw [Reader.Takes, h]
  rfl

/-- A reader that takes something leaves less. -/
theorem Reader.Takes.length_lt {p : Reader α} {a : α} (h : p.Takes s a r) :
    r.length < s.length :=
  h.eq_ok.1

/-- A word that has been taken stood in front. -/
theorem append_of_word {ws : List Char} {t : Tail s} (h : word ws s = .ok t) :
    s = ws ++ t.rest := by
  induction ws generalizing s with
  | nil =>
      cases h
      rfl
  | cons w ws ih =>
      cases s with
      | nil => cases h
      | cons c s =>
          rw [word] at h
          split at h
          next hc =>
            split at h
            next u hu =>
              cases h
              exact hc ▸ congrArg (c :: ·) (ih hu)
            next => cases h
          next => cases h

/-! ### Values -/

/-- A value, with at most `d` containers around one another, that begins with the first token of a
text. -/
inductive Opens : (d : Nat) → List Char → Written → List Char → Prop where
  | null {d : Nat} {t r : List Char} (h : t = ['u', 'l', 'l'] ++ r) : Opens d ('n' :: t) .null r
  | yes {d : Nat} {t r : List Char} (h : t = ['r', 'u', 'e'] ++ r) :
      Opens d ('t' :: t) (.bool true) r
  | no {d : Nat} {t r : List Char} (h : t = ['a', 'l', 's', 'e'] ++ r) :
      Opens d ('f' :: t) (.bool false) r
  | string {d : Nat} {t r : List Char} {k : String} (h : string.Takes t k r) :
      Opens d ('"' :: t) (.string k) r
  | array {d : Nat} {t r : List Char} {ws : List Written} (h : (items (value d)).Takes t ws r) :
      Opens (d + 1) ('[' :: t) (.array ws) r
  | object {d : Nat} {t r : List Char} {ms : List (String × Written)}
      (h : (members (value d)).Takes t ms r) : Opens (d + 1) ('\x7b' :: t) (.object ms) r
  | number {d : Nat} {c : Char} {t r : List Char} {n : Numeral} {v : Number}
      (hc : c = '-' ∨ isDigit c = true) (hn : (numeral .endInValue).Takes (c :: t) n r)
      (hv : n.number? = .ok v) : Opens d (c :: t) (.number n v hv) r

/-- A number that has been read is the numeral with its value. -/
theorem exists_of_number {x : Read Written s} (h : number s = .ok x) :
    ∃ n v, ∃ hv : n.number? = .ok v, x.value = .number n v hv ∧
      (numeral .endInValue).Takes s n x.rest := by
  obtain ⟨n, hn, h⟩ := exists_of_bind h
  split at h
  next v hv =>
    cases h
    exact ⟨n.value, v, hv, rfl, Reader.takes_of_eq_ok hn⟩
  next => cases h

/-- **The first token tells** what has been read. -/
theorem Opens.of_takes {d : Nat} {w : Written} (h : (value d).Takes s w r) :
    Opens d (skipGap s) w r := by
  obtain ⟨hr, h⟩ := h.eq_ok
  rw [value] at h
  obtain ⟨c, t, ht, hs, h⟩ := exists_of_onToken h
  rw [hs]
  -- by the first character: three words, a string, the two containers, a number
  split at h
  · obtain ⟨u, hu, heq⟩ := exists_of_map h
    cases heq
    exact .null (append_of_word hu)
  · obtain ⟨u, hu, heq⟩ := exists_of_map h
    cases heq
    exact .yes (append_of_word hu)
  · obtain ⟨u, hu, heq⟩ := exists_of_map h
    cases heq
    exact .no (append_of_word hu)
  · obtain ⟨u, hu, heq⟩ := exists_of_map h
    cases heq
    exact .string (Reader.takes_of_eq_ok hu)
  · split at h
    · cases h
    · obtain ⟨u, hu, heq⟩ := exists_of_map h
      cases heq
      exact .array (Reader.takes_of_eq_ok hu)
  · split at h
    · cases h
    · obtain ⟨u, hu, heq⟩ := exists_of_map h
      cases heq
      exact .object (Reader.takes_of_eq_ok hu)
  · split at h
    next hc =>
      obtain ⟨u, hu, heq⟩ := exists_of_map h
      obtain ⟨n, v, hv, hvalue, hn⟩ := exists_of_number hu
      obtain ⟨w', r', hr'⟩ := u
      cases heq
      cases hvalue
      exact .number hc hn hv
    next => cases h

/-- A value that is read opens with a token. -/
theorem Opens.exists_of_takes {d : Nat} {w : Written} (h : (value d).Takes s w r) :
    ∃ c t, skipGap s = c :: t ∧ Opens d (c :: t) w r := by
  have hopens := Opens.of_takes h
  cases hs : skipGap s with
  | nil =>
      rw [hs] at hopens
      cases hopens
  | cons c t => exact ⟨c, t, rfl, hs ▸ hopens⟩

/-! ### Parts of a container -/

/-- What a container holds stands at `s` part by part, each where `next` goes on. -/
inductive PartsAt (next : Bool → (s : List Char) → Except Fault (Next s)) (p : Reader α) :
    Bool → List Char → List α → List Char → Prop where
  | done {first : Bool} {s r : List Char} (h : EndsAt next first s r) : PartsAt next p first s [] r
  | more {first : Bool} {s t u r : List Char} {a : α} {as : List α}
      (h : GoesOnAt next first s t) (ha : p.Takes t a u) (has : PartsAt next p false u as r) :
      PartsAt next p first s (a :: as) r

/-- Parts that are read stand one after the other. -/
theorem PartsAt.of_takes {next : Bool → (s : List Char) → Except Fault (Next s)} {p : Reader α}
    {first : Bool} {as : List α} (h : (parts next p first).Takes s as r) :
    PartsAt next p first s as r := by
  -- by the length of the text, as each part takes something off it
  induction hn : s.length using Nat.strong_induction_on generalizing first s as with
  | _ n ih =>
      subst hn
      obtain ⟨hr, h⟩ := h.eq_ok
      rw [parts] at h
      split at h
      · cases h
      next u hu hnext =>
        cases h
        exact .done ⟨hu, hnext⟩
      next t hnext =>
        split at h
        · cases h
        next v hv =>
          split at h
          · cases h
          next vs hvs =>
            cases h
            have hshorter := Nat.lt_of_lt_of_le v.shorter t.within
            exact .more ⟨t.within, hnext⟩ (Reader.takes_of_eq_ok hv)
              (ih _ hshorter (Reader.takes_of_eq_ok hvs) rfl)

/-- A member that has been read is a key, a colon and what its value was read as. -/
theorem exists_of_member_takes {p : Reader α} {m : String × α} (h : (member p).Takes s m r) :
    ∃ t, ∃ u : Tail t, string.Takes s m.1 t ∧ colon t = .ok u ∧ p.Takes u.rest m.2 r := by
  obtain ⟨hr, h⟩ := h.eq_ok
  obtain ⟨k, hk, h⟩ := exists_of_bind h
  obtain ⟨c, hc, h⟩ := exists_of_bind h
  obtain ⟨v, hv, h⟩ := exists_of_bind h
  cases h
  exact ⟨k.rest, c, Reader.takes_of_eq_ok hk, hc, Reader.takes_of_eq_ok hv⟩

/-! ### Where a container went on -/

theorem skipGap_of_endsAt_item {first : Bool} (h : EndsAt nextItem first s r) :
    skipGap s = ']' :: r := by
  obtain ⟨hr, h⟩ := h
  obtain ⟨c, t, ht, hs, h⟩ := exists_of_onToken h
  split at h
  next hc =>
    cases h
    rw [hs, hc]
  next =>
    split at h
    · cases h
    · split at h
      · obtain ⟨d, u, hu, -, h⟩ := exists_of_onToken h
        split at h <;> cases h
      · cases h

/-- An item stands at the next token, or at the one behind a comma. -/
theorem skipGap_of_goesOnAt_item {first : Bool} (h : GoesOnAt nextItem first s t) :
    t.head? ≠ some ']' ∧
      (first = true ∧ skipGap s = t ∨
        first = false ∧ ∃ u, skipGap s = ',' :: u ∧ skipGap u = t) := by
  obtain ⟨ht, h⟩ := h
  obtain ⟨c, u, hu, hs, h⟩ := exists_of_onToken h
  split at h
  · cases h
  next hne =>
    split at h
    next hfirst =>
      cases h
      exact ⟨by simpa using hne, .inl ⟨hfirst, hs⟩⟩
    next hfirst =>
      split at h
      next hc =>
        obtain ⟨d, v, hv, hu, h⟩ := exists_of_onToken h
        split at h
        · cases h
        next hd =>
          cases h
          exact ⟨by simpa using hd, .inr ⟨by simpa using hfirst, u, by rw [hs, hc], hu⟩⟩
      next => cases h

theorem skipGap_of_endsAt_key {first : Bool} (h : EndsAt nextKey first s r) :
    skipGap s = '\x7d' :: r := by
  obtain ⟨hr, h⟩ := h
  obtain ⟨c, t, ht, hs, h⟩ := exists_of_onToken h
  split at h
  next hc =>
    cases h
    rw [hs, hc]
  next =>
    split at h
    · split at h <;> cases h
    · split at h
      · obtain ⟨d, u, hu, -, h⟩ := exists_of_onToken h
        split at h
        · cases h
        · split at h <;> cases h
      · cases h

/-- The quote of a key is the next token, or the one behind a comma. -/
theorem skipGap_of_goesOnAt_key {first : Bool} (h : GoesOnAt nextKey first s t) :
    first = true ∧ skipGap s = '"' :: t ∨
      first = false ∧ ∃ u, skipGap s = ',' :: u ∧ skipGap u = '"' :: t := by
  obtain ⟨ht, h⟩ := h
  obtain ⟨c, u, hu, hs, h⟩ := exists_of_onToken h
  split at h
  · cases h
  next =>
    split at h
    next hfirst =>
      split at h
      next hc =>
        cases h
        exact .inl ⟨hfirst, by rw [hs, hc]⟩
      next => cases h
    next hfirst =>
      split at h
      next hc =>
        obtain ⟨d, v, hv, hu, h⟩ := exists_of_onToken h
        split at h
        next hd =>
          cases h
          exact .inr ⟨by simpa using hfirst, u, by rw [hs, hc], by rw [hu, hd]⟩
        next => split at h <;> cases h
      next => cases h

end LintGate.Json
