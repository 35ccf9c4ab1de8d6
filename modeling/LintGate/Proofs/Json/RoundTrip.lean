import LintGate.Proofs.Json.Exact
import LintGate.Proofs.Json.Parts

/-!
# JSON — documents read back

The text of a sound value whose numbers fit is read, in either layout, as a document that denotes
the same, with its members in their order (`parseWritten_chars`); without doubles it is read as the
value itself (`parse_chars`).  The parts of a value are read back wherever they stand: behind any
gap, and before anything that does not go on a numeral (`ReadsBack`).
-/

namespace LintGate.Json

/-! ### Layouts -/

/-- The layout sets the parts of a document apart by gaps only. -/
structure Style.Spaced (st : Style) : Prop where
  lineBreak : ∀ level, Gap (st.lineBreak level)
  colon : ∃ g, st.colon = ':' :: g ∧ Gap g

/-- The compact style puts nothing but white space between tokens. -/
theorem spaced_compact : Style.compact.Spaced where
  lineBreak _ := gap_nil
  colon := ⟨[], rfl, gap_nil⟩

theorem spaced_indented : Style.indented.Spaced where
  lineBreak level := by
    refine gap_cons (by decide) ?_
    intro c hc
    obtain rfl := List.eq_of_mem_replicate hc
    decide
  colon := ⟨[' '], rfl, gap_cons (by decide) gap_nil⟩

theorem endsNumeral_nil : EndsNumeral [] := fun _ _ h => absurd h (List.cons_ne_nil _ _).symm

theorem endsNumeral_cons {c : Char} (hc : isDigit c = false ∧ c ≠ '.' ∧ c ≠ 'e' ∧ c ≠ 'E')
    (r : List Char) : EndsNumeral (c :: r) := by
  intro d t h
  obtain rfl := (List.cons.inj h).1
  exact hc

/-- A gap ends a numeral, and so does what ends one without it. -/
theorem endsNumeral_gap {g r : List Char} (hg : Gap g) (hr : EndsNumeral r) :
    EndsNumeral (g ++ r) := by
  cases g with
  | nil => exact hr
  | cons c g =>
      have hc := hg c List.mem_cons_self
      refine endsNumeral_cons ?_ _
      simp only [isGap, Bool.or_eq_true, beq_iff_eq] at hc
      rcases hc with ((rfl | rfl) | rfl) | rfl <;> decide

/-! ### Values -/

/-- The value is read back with `d` containers allowed, as a document that spells it, behind any gap
and before anything that does not go on a numeral; and its text begins like no other token. -/
structure ReadsBack (st : Style) (d : Nat) (v : Value) : Prop where
  head : ∀ level, ∃ c t, v.chars st level = c :: t ∧ isGap c = false ∧ c ≠ ']'
  takes : ∀ level g r, Gap g → EndsNumeral r →
    ∃ w : Written, w.Spells v ∧ (value d).Takes (g ++ v.chars st level ++ r) w r

/-! #### Words, numbers and strings -/

section

variable {st : Style} {d : Nat} {g r : List Char}

theorem readsBack_null : ReadsBack st d .null where
  head _ := ⟨'n', _, rfl, by decide, by decide⟩
  takes level g r hg _ := by
    obtain ⟨h, hw⟩ := word_takes ['u', 'l', 'l'] r
    refine ⟨.null, ⟨rfl, fun _ => rfl⟩, ?_⟩
    rw [Value.chars, List.append_assoc, Reader.Takes, value]
    change (onToken _ (g ++ 'n' :: (['u', 'l', 'l'] ++ r)) _).map _ = _
    rw [onToken_token hg (by decide)]
    simp only [hw, Except.map]

theorem readsBack_bool (b : Bool) : ReadsBack st d (.bool b) where
  head _ := by
    cases b
    · exact ⟨'f', _, rfl, by decide, by decide⟩
    · exact ⟨'t', _, rfl, by decide, by decide⟩
  takes level g r hg _ := by
    refine ⟨.bool b, ⟨rfl, fun _ => rfl⟩, ?_⟩
    cases b with
    | false =>
        obtain ⟨h, hw⟩ := word_takes ['a', 'l', 's', 'e'] r
        rw [Value.chars, List.append_assoc, Reader.Takes, value]
        change (onToken _ (g ++ 'f' :: (['a', 'l', 's', 'e'] ++ r)) _).map _ = _
        rw [onToken_token hg (by decide)]
        simp only [hw, Except.map]
    | true =>
        obtain ⟨h, hw⟩ := word_takes ['r', 'u', 'e'] r
        rw [Value.chars, List.append_assoc, Reader.Takes, value]
        change (onToken _ (g ++ 't' :: (['r', 'u', 'e'] ++ r)) _).map _ = _
        rw [onToken_token hg (by decide)]
        simp only [hw, Except.map]

/-- A string is read back. -/
theorem readsBack_string (s : String) : ReadsBack st d (.string s) where
  head _ := ⟨'"', _, rfl, by decide, by decide⟩
  takes level g r hg _ := by
    obtain ⟨h, hs⟩ := (string_takes s r).eq_ok
    refine ⟨.string s, ⟨rfl, fun _ => rfl⟩, ?_⟩
    have htext : g ++ (Value.string s).chars st level ++ r =
        g ++ '"' :: (s.toList.flatMap escapeChar ++ '"' :: r) := by
      simp only [Value.chars, stringChars, List.cons_append, List.append_assoc, List.nil_append]
    rw [htext, Reader.Takes, value, onToken_token hg (by decide)]
    simp only [hs, Except.map, Read.map, Read.widen]

/-- What a number begins with is neither a gap nor the end of an array. -/
theorem not_gap_of_opensNumber {c : Char} (hc : c = '-' ∨ isDigit c = true) :
    isGap c = false ∧ c ≠ ']' := by
  rcases hc with rfl | hc
  · decide
  · constructor
    · by_contra hgap
      simp only [isGap, Bool.not_eq_false, Bool.or_eq_true, beq_iff_eq] at hgap
      rcases hgap with ((rfl | rfl) | rfl) | rfl <;> exact absurd hc (by decide)
    · rintro rfl
      exact absurd hc (by decide)

/-- A number is a value where a numeral begins. -/
theorem value_of_number {c : Char} {t : List Char} {w : Written} (hg : Gap g)
    (hc : c = '-' ∨ isDigit c = true) (h : number.Takes (c :: t) w r) :
    (value d).Takes (g ++ c :: t) w r := by
  obtain ⟨hr, hnum⟩ := h.eq_ok
  rw [Reader.Takes, value, onToken_token hg (not_gap_of_opensNumber hc).1]
  split
  case h_7 =>
    rw [if_pos hc, hnum]
    rfl
  all_goals exact absurd hc (by decide)

/-- A number that fits is written as a numeral that spells it. -/
theorem exists_spells {n : Number} (h : n.Fits) : ∃ w : Written, w.Spells (.number n) ∧
    ∀ r, EndsNumeral r → number.Takes (n.chars ++ r) w r := by
  cases n with
  | int m =>
      have hm := number?_numeralOf h
      refine ⟨.number (numeralOf m) (.int m) hm, ⟨?_, fun _ => rfl⟩, fun r hr => ?_⟩
      · exact congrArg Exact.number (Number.decimal_numeralOf m)
      · rw [Number.chars, ← chars_numeralOf]
        exact Numeral.number_takes (proper_numeralOf m) hm hr
  | double d =>
      obtain ⟨v, hv⟩ := Number.exists_number? h
      refine ⟨.number _ v hv, ⟨?_, ?_⟩, fun r hr => ?_⟩
      · exact congrArg Exact.number (Number.decimal_numeral (.double d))
      · intro hfree
        cases hfree
      · rw [← Number.chars_numeral]
        exact Numeral.number_takes (Number.proper_numeral (.double d)) hv hr

/-- A number that fits is read back. -/
theorem readsBack_number {n : Number} (h : n.Fits) : ReadsBack st d (.number n) := by
  obtain ⟨c, t, hct, hc⟩ := Numeral.exists_chars_cons n.proper_numeral
  rw [n.chars_numeral] at hct
  constructor
  · intro level
    exact ⟨c, t, hct, not_gap_of_opensNumber hc⟩
  · intro level g r hg hr
    obtain ⟨w, hw, hnum⟩ := exists_spells h
    refine ⟨w, hw, ?_⟩
    have hnum := hnum r hr
    rw [hct, List.cons_append] at hnum
    rw [Value.chars, hct, List.append_assoc, List.cons_append]
    exact value_of_number hg hc hnum

/-! #### Arrays -/

theorem endsNumeral_moreItems (level : Nat) (vs : List Value) (hg : Gap g) :
    EndsNumeral (Value.moreItems st level vs ++ g ++ ']' :: r) := by
  cases vs with
  | nil => exact endsNumeral_gap hg (endsNumeral_cons (by decide) _)
  | cons v vs =>
      rw [Value.moreItems]
      exact endsNumeral_cons (by decide) _

/-- The items after the first one are read back, up to the end of the array. -/
theorem moreItems_takes (hst : st.Spaced) (level : Nat) {vs : List Value}
    (hvs : ∀ v ∈ vs, ReadsBack st d v) (hg : Gap g) :
    ∃ ws : List Written, List.Forall₂ Written.Spells ws vs ∧ (parts nextItem (value d) false).Takes
      (Value.moreItems st level vs ++ g ++ ']' :: r) ws r := by
  induction vs with
  | nil => exact ⟨[], .nil, parts_done (nextItem_done false hg r)⟩
  | cons v vs ih =>
      obtain ⟨ws, hws, hmore⟩ := ih fun u hu => hvs u (List.mem_cons_of_mem _ hu)
      have hv := hvs v List.mem_cons_self
      obtain ⟨w, hw, hval⟩ := hv.takes level [] _ gap_nil
        (endsNumeral_moreItems (r := r) level vs hg)
      -- the item's first token is no bracket, so the comma before it is not the last thing there
      obtain ⟨c, t, hct, hc, hne⟩ := hv.head level
      refine ⟨w :: ws, .cons hw hws, parts_more ?_ hval hmore⟩
      have hnext := nextItem_comma (hst.lineBreak level) hc hne
        (t ++ (Value.moreItems st level vs ++ g ++ ']' :: r))
      simpa only [Value.moreItems, hct, List.cons_append, List.append_assoc, List.nil_append]
        using hnext

theorem value_of_items {t : List Char} {ws : List Written} (hg : Gap g)
    (h : (items (value d)).Takes t ws r) : (value (d + 1)).Takes (g ++ '[' :: t) (.array ws) r := by
  obtain ⟨hr, hitems⟩ := h.eq_ok
  rw [Reader.Takes, value, onToken_token hg (by decide)]
  simp only [hitems, Except.map, Read.map, Read.widen]

/-- An array is read back if its items are. -/
theorem readsBack_array (hst : st.Spaced) {vs : List Value} (h : ∀ v ∈ vs, ReadsBack st d v) :
    ReadsBack st (d + 1) (.array vs) := by
  constructor
  · intro level
    cases vs <;> exact ⟨'[', _, rfl, by decide, by decide⟩
  · intro level g r hg _
    cases vs with
    | nil =>
        refine ⟨.array [], ⟨rfl, fun _ => rfl⟩, ?_⟩
        rw [Value.chars, List.append_assoc]
        exact value_of_items hg (parts_done (nextItem_done true gap_nil r))
    | cons v vs =>
        obtain ⟨ws, hws, hmore⟩ := moreItems_takes (r := r) hst (level + 1)
          (fun u hu => h u (List.mem_cons_of_mem _ hu)) (hst.lineBreak level)
        have hv := h v List.mem_cons_self
        obtain ⟨w, hw, hval⟩ := hv.takes (level + 1) [] _ gap_nil
          (endsNumeral_moreItems (r := r) (level + 1) vs (hst.lineBreak level))
        obtain ⟨c, t, hct, hc, hne⟩ := hv.head (level + 1)
        refine ⟨.array (w :: ws), Written.spells_array (.cons hw hws), ?_⟩
        have hnext := nextItem_first (hst.lineBreak (level + 1)) hc hne
          (t ++ (Value.moreItems st (level + 1) vs ++ st.lineBreak level ++ ']' :: r))
        have hall := value_of_items hg (parts_more hnext
          (by simpa only [hct, List.nil_append, List.cons_append] using hval) hmore)
        simpa only [Value.chars, hct, List.cons_append, List.append_assoc, List.nil_append]
          using hall

/-! #### Objects -/

theorem endsNumeral_moreMembers (level : Nat) (ms : Members) (hg : Gap g) :
    EndsNumeral (Value.moreMembers st level ms ++ g ++ '\x7d' :: r) := by
  cases ms with
  | nil => exact endsNumeral_gap hg (endsNumeral_cons (by decide) _)
  | cons m ms =>
      obtain ⟨k, v⟩ := m
      rw [Value.moreMembers]
      exact endsNumeral_cons (by decide) _

/-- A key, its colon and a value, behind the opening quote of the key. -/
theorem member_readsBack (hst : st.Spaced) (level : Nat) {v : Value} (k : String)
    (hv : ReadsBack st d v) (hr : EndsNumeral r) : ∃ w : Written, w.Spells v ∧
      (member (value d)).Takes
        (k.toList.flatMap escapeChar ++ '"' :: (st.colon ++ v.chars st level ++ r)) (k, w) r := by
  obtain ⟨g, hcolon, hg⟩ := hst.colon
  obtain ⟨w, hw, hval⟩ := hv.takes level g r hg hr
  refine ⟨w, hw, ?_⟩
  rw [hcolon]
  exact member_takes hval

/-- The members after the first one are read back, up to the end of the object. -/
theorem moreMembers_takes (hst : st.Spaced) (level : Nat) {ms : Members}
    (hms : ∀ m ∈ ms, ReadsBack st d m.2) (hg : Gap g) :
    ∃ ws, List.Forall₂ (fun w m => w.1 = m.1 ∧ w.2.Spells m.2) ws ms ∧
      (parts nextKey (member (value d)) false).Takes
        (Value.moreMembers st level ms ++ g ++ '\x7d' :: r) ws r := by
  induction ms with
  | nil => exact ⟨[], .nil, parts_done (nextKey_done false hg r)⟩
  | cons m ms ih =>
      obtain ⟨k, v⟩ := m
      obtain ⟨ws, hws, hmore⟩ := ih fun m hm => hms m (List.mem_cons_of_mem _ hm)
      obtain ⟨w, hw, hmem⟩ := member_readsBack hst level k (hms _ List.mem_cons_self)
        (endsNumeral_moreMembers (r := r) level ms hg)
      refine ⟨(k, w) :: ws, .cons ⟨rfl, hw⟩ hws, parts_more ?_ hmem hmore⟩
      have hnext := nextKey_comma (hst.lineBreak level) (k.toList.flatMap escapeChar ++ '"' ::
        (st.colon ++ v.chars st level ++ (Value.moreMembers st level ms ++ g ++ '\x7d' :: r)))
      simpa only [Value.moreMembers, stringChars, List.cons_append, List.append_assoc,
        List.nil_append] using hnext

theorem value_of_members {t : List Char} {ws : List (String × Written)} (hg : Gap g)
    (h : (members (value d)).Takes t ws r) :
    (value (d + 1)).Takes (g ++ '\x7b' :: t) (.object ws) r := by
  obtain ⟨hr, hmembers⟩ := h.eq_ok
  rw [Reader.Takes, value, onToken_token hg (by decide)]
  simp only [hmembers, Except.map, Read.map, Read.widen]

/-- An object is read back if its members are, and none is named twice. -/
theorem readsBack_object (hst : st.Spaced) {ms : Members} (hd : Members.Distinct ms)
    (h : ∀ m ∈ ms, ReadsBack st d m.2) : ReadsBack st (d + 1) (.object ms) := by
  constructor
  · intro level
    rcases ms with _ | ⟨⟨k, v⟩, ms⟩ <;> exact ⟨'\x7b', _, rfl, by decide, by decide⟩
  · intro level g r hg _
    cases ms with
    | nil =>
        refine ⟨.object [], ⟨rfl, fun _ => rfl⟩, ?_⟩
        rw [Value.chars, List.append_assoc]
        exact value_of_members hg (parts_done (nextKey_done true gap_nil r))
    | cons m ms =>
        obtain ⟨k, v⟩ := m
        obtain ⟨ws, hws, hmore⟩ := moreMembers_takes (r := r) hst (level + 1)
          (fun m hm => h m (List.mem_cons_of_mem _ hm)) (hst.lineBreak level)
        obtain ⟨w, hw, hmem⟩ := member_readsBack hst (level + 1) k
          (h _ List.mem_cons_self)
          (endsNumeral_moreMembers (r := r) (level + 1) ms (hst.lineBreak level))
        refine ⟨.object ((k, w) :: ws), Written.spells_object hd (.cons ⟨rfl, hw⟩ hws), ?_⟩
        · have hall := value_of_members hg
            (parts_more (nextKey_first (hst.lineBreak (level + 1)) _) hmem hmore)
          simpa only [Value.chars, stringChars, List.cons_append, List.append_assoc,
            List.nil_append] using hall

end

/-- **A sound value whose numbers fit is read back**, in any layout that is spaced by gaps. -/
theorem Value.Sound.readsBack {st : Style} (hst : st.Spaced) {d : Nat} {v : Value}
    (h : v.Sound d) (hf : v.Fits) : ReadsBack st d v := by
  induction h with
  | null => exact readsBack_null
  | bool b => exact readsBack_bool b
  | int hn => exact readsBack_number hn
  | double x =>
      cases hf with
      | number hx => exact readsBack_number hx
  | string s => exact readsBack_string s
  | array h ih =>
      cases hf with
      | array hf => exact readsBack_array hst fun v hv => ih v hv (hf v hv)
  | object hd h ih =>
      cases hf with
      | object hf => exact readsBack_object hst hd fun m hm => ih m hm (hf m hm)

/-! ### Whole texts -/

/-- What is read off the front of a text with only a gap behind it is what the text stands for. -/
theorem parseWith_of_takes {α : Type} {p : Reader α} {t g : List Char} {a : α} (hg : Gap g)
    (h : p.Takes t a g) : parseWith p (String.ofList t) = .ok a := by
  obtain ⟨hr, hp⟩ := h.eq_ok
  have hend : skipGap g = [] := by
    rw [skipGap, ← List.append_nil g, List.dropWhile_append_of_pos hg, List.dropWhile_nil]
  rw [parseWith, String.toList_ofList, hp]
  simp only [hend]

/-- **A sound document whose numbers fit is read back** from its text and any gap behind it. -/
theorem parseWritten_chars {st : Style} (hst : st.Spaced) {v : Value} (h : v.Sound depthLimit)
    (hf : v.Fits) {g : List Char} (hg : Gap g) :
    ∃ w, parseWritten (String.ofList (v.chars st 0 ++ g)) = .ok w ∧ w.Spells v := by
  have hend : EndsNumeral g := by
    rw [← List.append_nil g]
    exact endsNumeral_gap hg endsNumeral_nil
  obtain ⟨w, hw, hval⟩ := (h.readsBack hst hf).takes 0 [] g gap_nil hend
  rw [List.nil_append] at hval
  exact ⟨w, parseWith_of_takes hg hval, hw⟩

/-- A sound document without doubles is read back as it was. -/
theorem parse_chars {st : Style} (hst : st.Spaced) {v : Value} (h : v.Sound depthLimit)
    (hf : v.doubleFree = true) {g : List Char} (hg : Gap g) :
    parse (String.ofList (v.chars st 0 ++ g)) = .ok v := by
  obtain ⟨w, hparse, hw⟩ := parseWritten_chars hst h (h.fits hf) hg
  rw [parse, hparse, Except.map, hw.value hf]

end LintGate.Json
