import LintGate.Json.Skip
import LintGate.Proofs.Json.Tokens

/-!
# JSON — what can be read can be passed over

Wherever a value can be read, passing over it leaves the same rest of the text
(`skipValue_takes`).  In a string the two go at different paces: a pair of surrogates is read as one
character and passed over as two escapes (`skipEscape_of_escape`).  What a reader says of a numeral
that the text cuts short makes no difference to a whole one (`numeral_of_numeral`).
-/

namespace LintGate.Json

variable {d : Nat} {s t r : List Char}

/-! ### Strings -/

theorem skipEscape_unit {u : Nat} (h : codeUnit.Takes s u r) : skipEscape.Takes ('u' :: s) () r := by
  obtain ⟨hr, hunit⟩ := h.eq_ok
  rw [Reader.Takes, skipEscape, if_pos rfl, hunit]
  rfl

theorem skipEscape_letter {l c : Char} (hl : l ≠ 'u') (h : escape? l = some c) (r : List Char) :
    skipEscape.Takes (l :: r) () r := by
  rw [Reader.Takes, skipEscape, if_neg hl, h]
  rfl

/-- The code unit of a partner stands behind a backslash and its letter. -/
theorem exists_of_partner {x : Read Nat s} (h : partner s = .ok x) :
    ∃ t, s = '\\' :: 'u' :: t ∧ codeUnit.Takes t x.value x.rest := by
  unfold partner at h
  split at h
  · cases h
  next r =>
    split at h
    · cases h
    next t =>
      obtain ⟨u, hu, rfl⟩ := exists_of_map h
      exact ⟨t, rfl, Reader.takes_of_eq_ok hu⟩
    · cases h
  · cases h

/-- An escape that can be read is passed over as one, or as two if it is a pair of surrogates. -/
theorem skipEscape_of_escape {c : Char} (h : escape.Takes s c r) :
    skipEscape.Takes s () r ∨
      ∃ t, skipEscape.Takes s () ('\\' :: t) ∧ skipEscape.Takes t () r := by
  obtain ⟨hr, h⟩ := h.eq_ok
  cases s with
  | nil => cases h
  | cons l s =>
      rw [escape] at h
      split at h
      next hl =>
        subst hl
        obtain ⟨x, hx, heq⟩ := exists_of_map h
        obtain rfl : x.rest = r := congrArg Read.rest heq
        obtain ⟨u, hu, hx⟩ := exists_of_bind hx
        have hfirst := skipEscape_unit (Reader.takes_of_eq_ok hu)
        split at hx
        · cases hx
        · split at hx
          · obtain ⟨v, hv, hx⟩ := exists_of_bind hx
            split at hx
            · obtain ⟨t, ht, hv⟩ := exists_of_partner hv
              rw [ht] at hfirst
              have hrest : v.rest = x.rest := congrArg Read.rest (Except.ok.inj hx)
              exact .inr ⟨_, hfirst, hrest ▸ skipEscape_unit hv⟩
            · cases hx
          · have hrest : u.rest = x.rest := congrArg Read.rest (Except.ok.inj hx)
            exact .inl (hrest ▸ hfirst)
      next hl =>
        split at h
        next e he =>
          cases h
          exact .inl (skipEscape_letter hl he _)
        next => cases h

theorem skipString_quote (r : List Char) : skipString.Takes ('"' :: r) () r := by
  rw [Reader.Takes, skipString, if_pos rfl]
  rfl

theorem skipString_escape (h : skipEscape.Takes s () t) (ht : skipString.Takes t () r) :
    skipString.Takes ('\\' :: s) () r := by
  obtain ⟨hs, hesc⟩ := h.eq_ok
  obtain ⟨hr, htail⟩ := ht.eq_ok
  rw [Reader.Takes, skipString, if_neg (by decide), if_pos rfl]
  simp only [hesc, htail, Except.map, Read.widen]

theorem skipString_char {c : Char} (hquote : c ≠ '"') (hback : c ≠ '\\') (hspace : ¬ c < ' ')
    (h : skipString.Takes s () r) : skipString.Takes (c :: s) () r := by
  obtain ⟨hr, htail⟩ := h.eq_ok
  rw [Reader.Takes, skipString, if_neg hquote, if_neg hback, if_neg hspace, htail]
  rfl

/-- A string that can be read can be passed over. -/
theorem skipString_of_stringTail {cs : List Char} (h : stringTail.Takes s cs r) :
    skipString.Takes s () r := by
  -- by the length of the text, as an escape takes several characters off it
  induction hn : s.length using Nat.strong_induction_on generalizing s cs with
  | _ n ih =>
      subst hn
      obtain ⟨hr, h⟩ := h.eq_ok
      cases s with
      | nil =>
          rw [stringTail] at h
          cases h
      | cons c s =>
          rw [stringTail] at h
          split at h
          next hc =>
            cases h
            exact hc ▸ skipString_quote r
          next hquote =>
            split at h
            next hc =>
              subst hc
              split at h
              · cases h
              next x hx =>
                split at h
                · cases h
                next y hy =>
                  cases h
                  have htail := ih x.rest.length (Nat.lt_succ_of_lt x.shorter)
                    (Reader.takes_of_eq_ok hy) rfl
                  rcases skipEscape_of_escape (Reader.takes_of_eq_ok hx) with hone | ⟨t, h₁, h₂⟩
                  · exact skipString_escape hone htail
                  · exact skipString_escape h₁ (skipString_escape h₂ htail)
            next hback =>
              split at h
              · cases h
              next hspace =>
                split at h
                · cases h
                next y hy =>
                  cases h
                  exact skipString_char hquote hback hspace
                    (ih s.length (Nat.lt_succ_self _) (Reader.takes_of_eq_ok hy) rfl)

/-- A string that can be read can be passed over. -/
theorem skipString_takes {k : String} (h : string.Takes s k r) : skipString.Takes s () r := by
  obtain ⟨hr, h⟩ := h.eq_ok
  obtain ⟨x, hx, heq⟩ := exists_of_map h
  cases heq
  exact skipString_of_stringTail (Reader.takes_of_eq_ok hx)

/-! ### Numerals -/

section

variable {e e' : Reason}

/-- Digits are read alike, whatever their failure would be called. -/
theorem digits_of_digits {x : Read (List Char) s} (h : digits e s = .ok x) :
    digits e' s = .ok x := by
  cases s with
  | nil => cases h
  | cons c s =>
      rw [digits] at h ⊢
      split at h
      next hc => rw [if_pos hc, h]
      next => cases h

theorem wholeDigits_of_wholeDigits {x : Read (List Char) s} (h : wholeDigits e s = .ok x) :
    wholeDigits e' s = .ok x := by
  unfold wholeDigits at h ⊢
  split at h
  · split at h
    · cases h
    next hc =>
      cases h
      exact if_neg hc
  next hne => exact digits_of_digits h

theorem fractionDigits_of_fractionDigits {x : List Char × Tail s} (h : fractionDigits e s = .ok x) :
    fractionDigits e' s = .ok x := by
  unfold fractionDigits at h ⊢
  split at h
  next r =>
    split at h
    next f hf =>
      cases h
      simp only [digits_of_digits hf]
    next => cases h
  next => exact h

theorem exponentPart_of_exponentPart {x : Option (Bool × List Char) × Tail s}
    (h : exponentPart e s = .ok x) : exponentPart e' s = .ok x := by
  cases s with
  | nil => exact h
  | cons c s =>
      rw [exponentPart] at h ⊢
      split at h
      next hc =>
        rw [if_pos hc]
        dsimp only at h ⊢
        split at h
        next f hf =>
          cases h
          simp only [digits_of_digits hf]
        next => cases h
      next hc =>
        rw [if_neg hc]
        exact h

/-- Numerals are read alike, whatever their failure would be called. -/
theorem unsignedNumeral_of_unsignedNumeral {negative : Bool} {x : Read Numeral s}
    (h : unsignedNumeral e negative s = .ok x) : unsignedNumeral e' negative s = .ok x := by
  obtain ⟨w, hw, h⟩ := exists_of_bind h
  obtain ⟨f, hf, h⟩ := exists_of_bind h
  obtain ⟨p, hp, h⟩ := exists_of_bind h
  rw [unsignedNumeral, wholeDigits_of_wholeDigits hw]
  simp only [bind, Except.bind, fractionDigits_of_fractionDigits hf,
    exponentPart_of_exponentPart hp]
  exact h

/-- A numeral is read alike whatever is said of the end of the text. -/
theorem numeral_of_numeral {x : Read Numeral s} (h : numeral e s = .ok x) :
    numeral e' s = .ok x := by
  unfold numeral at h ⊢
  split at h
  next r =>
    obtain ⟨n, hn, rfl⟩ := exists_of_map h
    rw [unsignedNumeral_of_unsignedNumeral hn]
    rfl
  next => exact unsignedNumeral_of_unsignedNumeral h

end

/-! ### Containers -/

/-- A name and its colon are passed over. -/
theorem skipKey_takes {t : List Char} {u : Tail t} (hs : skipGap s = '"' :: r)
    (hr : skipString.Takes r () t) (hu : colon t = .ok u) : skipKey.Takes s () u.rest := by
  obtain ⟨ht, hr⟩ := hr.eq_ok
  rw [Reader.Takes, skipKey, onToken_of_skipGap hs, if_pos rfl, hr]
  simp only [bind, Except.bind, hu, Except.map]

/-- The items of an array, each of which can be passed over. -/
theorem skipItems_takes {first : Bool} {ws : List Written}
    (hvalue : ∀ {s r w}, Opens d (skipGap s) w r → Reader.Takes skipValue s () r)
    (h : PartsAt nextItem (value d) first s ws r) : Reader.Takes (skipItems first) s () r := by
  induction h with
  | done h =>
      rw [Reader.Takes, skipItems, onToken_of_skipGap (skipGap_of_endsAt_item h), if_pos rfl]
      rfl
  | @more first s t u r w ws h hw _ ih =>
      have hopens := Opens.of_takes hw
      obtain ⟨hr, hrest⟩ := ih.eq_ok
      obtain ⟨hbracket, ⟨rfl, hs⟩ | ⟨rfl, v, hs, hv⟩⟩ := skipGap_of_goesOnAt_item h
      · obtain ⟨c, t, rfl⟩ : ∃ c t', t = c :: t' := by
          refine List.exists_cons_of_ne_nil ?_
          rintro rfl
          exact absurd hw.length_lt (Nat.not_lt_zero _)
        obtain ⟨hu, hval⟩ := (hvalue hopens).eq_ok
        rw [Reader.Takes, skipItems, onToken_of_skipGap hs, if_neg (by simpa using hbracket),
          if_pos rfl]
        simp only [hval, hrest, Except.map, Read.widen]
      · rw [← hv, skipGap_skipGap] at hopens
        obtain ⟨hu, hval⟩ := (hvalue hopens).eq_ok
        rw [Reader.Takes, skipItems, onToken_of_skipGap hs, if_neg (by decide),
          if_neg Bool.false_ne_true, if_pos rfl]
        simp only [hval, hrest, Except.map, Read.widen]

/-- The members of an object, each of which can be passed over. -/
theorem skipMembers_takes {first : Bool} {ms : List (String × Written)}
    (hvalue : ∀ {s r w}, Opens d (skipGap s) w r → Reader.Takes skipValue s () r)
    (h : PartsAt nextKey (member (value d)) first s ms r) :
    Reader.Takes (skipMembers first) s () r := by
  induction h with
  | done h =>
      rw [Reader.Takes, skipMembers, onToken_of_skipGap (skipGap_of_endsAt_key h), if_pos rfl]
      rfl
  | @more first s t u r m ms h hm _ ih =>
      obtain ⟨v, c, hkey, hcolon, hw⟩ := exists_of_member_takes hm
      obtain ⟨hu, hval⟩ := (hvalue (Opens.of_takes hw)).eq_ok
      obtain ⟨hr, hrest⟩ := ih.eq_ok
      obtain ⟨rfl, hs⟩ | ⟨rfl, x, hs, hx⟩ := skipGap_of_goesOnAt_key h
      · obtain ⟨hk, hskip⟩ :=
          (skipKey_takes (skipGap_cons_of_skipGap hs) (skipString_takes hkey) hcolon).eq_ok
        rw [Reader.Takes, skipMembers, onToken_of_skipGap hs, if_neg (by decide)]
        simp only [if_true, hskip, hval, hrest, Except.map, Read.widen]
      · obtain ⟨hk, hskip⟩ := (skipKey_takes hx (skipString_takes hkey) hcolon).eq_ok
        rw [Reader.Takes, skipMembers, onToken_of_skipGap hs, if_neg (by decide)]
        simp only [Bool.false_eq_true, if_false, if_true, hskip, hval, hrest, Except.map,
          Read.widen]

/-! ### Values -/

/-- What opens as a value is passed over. -/
theorem skipValue_of_opens {w : Written} (h : Opens d (skipGap s) w r) :
    Reader.Takes skipValue s () r := by
  induction d using Nat.strong_induction_on generalizing s w r with
  | _ d ih =>
      cases hs : skipGap s with
      | nil =>
          rw [hs] at h
          cases h
      | cons c t =>
          rw [hs] at h
          rw [Reader.Takes, skipValue, onToken_of_skipGap hs]
          cases h with
          | null h =>
              subst h
              obtain ⟨hr, hword⟩ := word_takes ['u', 'l', 'l'] r
              simp only [hword, Except.map]
          | yes h =>
              subst h
              obtain ⟨hr, hword⟩ := word_takes ['r', 'u', 'e'] r
              simp only [hword, Except.map]
          | no h =>
              subst h
              obtain ⟨hr, hword⟩ := word_takes ['a', 'l', 's', 'e'] r
              simp only [hword, Except.map]
          | string h =>
              obtain ⟨hr, hskip⟩ := (skipString_takes h).eq_ok
              simp only [hskip, Except.map, Read.widen]
          | array h =>
              obtain ⟨hr, hskip⟩ := (skipItems_takes (ih _ (Nat.lt_succ_self _)) (.of_takes h)).eq_ok
              simp only [hskip, Except.map, Read.widen]
          | object h =>
              obtain ⟨hr, hskip⟩ :=
                (skipMembers_takes (ih _ (Nat.lt_succ_self _)) (.of_takes h)).eq_ok
              simp only [hskip, Except.map, Read.widen]
          | number hc hn =>
              obtain ⟨hr, hnum⟩ := hn.eq_ok
              split
              case h_7 =>
                rw [if_pos hc, numeral_of_numeral hnum]
                rfl
              all_goals exact absurd hc (by decide)

/-- **What can be read can be passed over**, with the same rest of the text behind it. -/
theorem skipValue_takes {w : Written} (h : (value d).Takes s w r) : Reader.Takes skipValue s () r :=
  skipValue_of_opens (.of_takes h)

end LintGate.Json
