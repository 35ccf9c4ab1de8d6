import LintGate.Proofs.Text.Sequence

/-!
# Text — UTF-8 back and forth

`Decodes bs us` says what bytes are read as without a word on how: a well-formed sequence in front
is its character, and where there is none, one `none` stands for the longest run of bytes in front
with which a character begins, or for a single byte with which none does.  The decoder reads all
bytes that way and no other (`decodes_iff`).  So `encode` and the decoder are inverse to each other:

* `units_encode`: the units of an encoded text are its characters;
* `strict?_eq_some_iff`: the bytes that are valid UTF-8 are those of the encoded texts.

A byte below 0x80 is a cut point, whatever damage there is: what stands before it and what stands
behind it are read as if each stood alone (`units_append_cons`).
-/

namespace LintGate.Text.Utf8

/-! ### What bytes are read as -/

/-- In front of `cs ++ r` stands no member of `L`, and `cs` is the longest run there with which one
begins. -/
structure CutShort (L : Bytes → Prop) (cs r : Bytes) : Prop where
  no_whole : ∀ ds, ds <+: cs ++ r → ¬ L ds
  opens : ∃ es, L (cs ++ es)
  longest : ∀ ds, ds <+: cs ++ r → (∃ es, L (ds ++ es)) → ds.length ≤ cs.length

/-- What bytes are read as: characters, and `none` for each that is cut short and for each byte with
which none begins. -/
inductive Decodes : Bytes → List (Option Char) → Prop where
  | done : Decodes [] []
  | char {cs r : Bytes} {v : Nat} {us : List (Option Char)} :
      Sequence cs v → Decodes r us → Decodes (cs ++ r) (some (Char.ofNat v) :: us)
  | cut {b : UInt8} {cs r : Bytes} {us : List (Option Char)} :
      CutShort WellFormed (b :: cs) r → Decodes r us → Decodes (b :: cs ++ r) (none :: us)
  | stray {b : UInt8} {r : Bytes} {us : List (Option Char)} :
      (∀ ds, ¬ WellFormed (b :: ds)) → Decodes r us → Decodes (b :: r) (none :: us)

namespace CutShort

variable {L : Bytes → Prop} {b : UInt8} {cs r : Bytes}

/-- Behind the first byte. -/
theorem tail (h : CutShort L (b :: cs) r) : CutShort (fun ds => L (b :: ds)) cs r where
  no_whole ds hds := h.no_whole (b :: ds) (List.cons_prefix_cons.mpr ⟨rfl, hds⟩)
  opens := h.opens
  longest ds hds hopens := by
    have hlen := h.longest (b :: ds) (List.cons_prefix_cons.mpr ⟨rfl, hds⟩) hopens
    simpa using hlen

/-- Nothing goes on with what is cut short in front of a byte. -/
theorem not_next (h : CutShort L [] (b :: r)) (es : Bytes) : ¬ L (b :: es) := by
  intro hes
  have hlen := h.longest [b] (List.cons_prefix_cons.mpr ⟨rfl, List.nil_prefix⟩) ⟨es, hes⟩
  simp at hlen

end CutShort

/-- Where no member of `L` stands in front, some run there is the longest with which one begins. -/
theorem exists_cutShort {L : Bytes → Prop} {bs : Bytes} (hno : ∀ ds, ds <+: bs → ¬ L ds)
    (hL : ∃ es, L es) : ∃ cs r, bs = cs ++ r ∧ CutShort L cs r := by
  classical
  let opens n := ∃ es, L (bs.take n ++ es)
  let n := Nat.findGreatest opens bs.length
  have hn : n ≤ bs.length := Nat.findGreatest_le _
  have hopens : opens n := Nat.findGreatest_spec (Nat.zero_le bs.length) hL
  refine ⟨bs.take n, bs.drop n, (List.take_append_drop n bs).symm, ?_, hopens, ?_⟩
  · rwa [List.take_append_drop]
  · intro ds hds hes
    rw [List.take_append_drop] at hds
    rw [List.length_take_of_le hn]
    refine Nat.le_findGreatest hds.length_le ?_
    rwa [List.prefix_iff_eq_take.mp hds] at hes

/-! ### The decoder reads that -/

/-- Inside a character that is cut short, what was begun and what goes on with it are one unit. -/
theorem unitsFrom_within_cut {bits owed low high : Nat} {cs r : Bytes}
    (h : CutShort (Completes owed low high) cs r) :
    unitsFrom (.within bits owed low high) (cs ++ r) = none :: unitsFrom .start r := by
  induction cs generalizing bits owed low high with
  | nil =>
      cases r with
      | nil => rfl
      | cons b r =>
          have hcut : ¬(low ≤ b.toNat ∧ b.toNat ≤ high) := by
            intro hb
            obtain ⟨es, hes⟩ := exists_completes_cons hb
            exact h.not_next es hes
          rw [List.nil_append, unitsFrom_cons, step_cut hcut, unitsFrom_cons]
          rfl
  | cons b cs ih =>
      obtain ⟨ds, hds⟩ := h.opens
      cases owed with
      | zero =>
          -- the byte alone would end the character
          obtain ⟨b', heq, hb⟩ := hds
          obtain rfl : b = b' := (List.cons.inj heq).1
          exact absurd ⟨b, rfl, hb⟩ (h.no_whole [b] (by simp))
      | succ n =>
          obtain ⟨hb, -⟩ := completes_succ_cons_iff.mp hds
          have hrest : (fun ds => Completes (n + 1) low high (b :: ds)) = Completes n 0x80 0xBF := by
            funext ds
            rw [completes_succ_cons_iff, eq_true hb, true_and]
          rw [List.cons_append, unitsFrom_within_more hb.1 hb.2]
          exact ih (hrest ▸ h.tail)

/-- A character that is cut short is one unit. -/
theorem CutShort.unitsFrom {b : UInt8} {cs r : Bytes} (h : CutShort WellFormed (b :: cs) r) :
    unitsFrom .start (b :: cs ++ r) = none :: unitsFrom .start r := by
  rcases lead_cases b.toNat with ⟨hb, -⟩ | hnone | ⟨bits, owed, low, high, hlead⟩
  · exact absurd (wellFormed_cons_iff.mpr (.inl ⟨hb, rfl⟩)) (h.no_whole [b] (by simp))
  · obtain ⟨ds, hds⟩ := h.opens
    exact absurd hds (lead_eq_none_iff.mp hnone _)
  · have hlang : (fun ds => WellFormed (b :: ds)) = Completes owed low high :=
      funext fun ds => propext (wellFormed_cons_iff_of_lead hlead)
    rw [List.cons_append, unitsFrom_cons, step.eq_1, hlead, List.nil_append]
    exact unitsFrom_within_cut (hlang ▸ h.tail)

/-- The specification leaves one way to decode bytes, the decoder's. -/
theorem Decodes.units {bs : Bytes} {us : List (Option Char)} (h : Decodes bs us) :
    units bs = us := by
  induction h with
  | done => rfl
  | char hcs _ ih => rw [Utf8.units, hcs.unitsFrom, ← ih, Utf8.units]
  | cut hcs _ ih => rw [Utf8.units, hcs.unitsFrom, ← ih, Utf8.units]
  | stray hb _ ih =>
      rw [Utf8.units, unitsFrom_cons, step.eq_1, lead_eq_none_iff.mpr hb, ← ih]
      rfl

/-- All bytes can be decoded. -/
theorem exists_decodes (bs : Bytes) : ∃ us, Decodes bs us := by
  -- by the number of bytes: a character, a character cut short and a stray byte all take some
  induction hn : bs.length using Nat.strong_induction_on generalizing bs with
  | _ n ih =>
      subst hn
      cases bs with
      | nil => exact ⟨[], .done⟩
      | cons b bs =>
          by_cases hwhole : ∃ cs, cs <+: b :: bs ∧ WellFormed cs
          · obtain ⟨cs, ⟨r, hr⟩, v, hcs⟩ := hwhole
            have hlt : r.length < (b :: bs).length := by
              rw [← hr, ← hcs.encodeChar]
              simpa using Char.utf8Size_pos _
            obtain ⟨us, hus⟩ := ih _ hlt r rfl
            rw [← hr]
            exact ⟨_, .char hcs hus⟩
          · push Not at hwhole
            by_cases hopens : ∃ ds, WellFormed (b :: ds)
            · obtain ⟨ds, hds⟩ := hopens
              obtain ⟨cs, r, hr, hcut⟩ := exists_cutShort hwhole ⟨_, hds⟩
              cases cs with
              | nil =>
                  obtain rfl : b :: bs = r := hr
                  exact absurd hds (hcut.not_next ds)
              | cons a cs =>
                  have hlt : r.length < (b :: bs).length := by simp [hr]
                  obtain ⟨us, hus⟩ := ih _ hlt r rfl
                  rw [hr]
                  exact ⟨_, .cut hcut hus⟩
            · push Not at hopens
              obtain ⟨us, hus⟩ := ih _ (by simp) bs rfl
              exact ⟨_, .stray hopens hus⟩

/-- **What the decoder reads** is what the bytes are read as. -/
theorem decodes_iff {bs : Bytes} {us : List (Option Char)} : Decodes bs us ↔ units bs = us := by
  refine ⟨Decodes.units, ?_⟩
  rintro rfl
  obtain ⟨us, hus⟩ := exists_decodes bs
  exact hus.units ▸ hus

/-! ### Texts and bytes -/

theorem encode_cons (c : Char) (s : List Char) :
    encode (c :: s) = String.utf8EncodeChar c ++ encode s := rfl

/-- An encoded text is read as its characters. -/
theorem units_encode (s : List Char) : units (encode s) = s.map some := by
  induction s with
  | nil => rfl
  | cons c s ih =>
      rw [units, encode_cons, (sequence_encodeChar c).unitsFrom, Char.ofNat_toNat]
      exact congrArg (some c :: ·) ih

/-- Bytes that are read as characters only are those of the text read. -/
theorem encode_lossy {bs : Bytes} (h : none ∉ units bs) : encode (lossy bs) = bs := by
  have hd : Decodes bs (units bs) := decodes_iff.mpr rfl
  rw [lossy]
  generalize units bs = us at hd h
  induction hd with
  | done => rfl
  | char hcs _ ih =>
      rw [List.map_cons, encode_cons, ih fun hm => h (List.mem_cons_of_mem _ hm)]
      exact congrArg (· ++ _) hcs.encodeChar
  | cut | stray => exact absurd List.mem_cons_self h

/-- A text is read back from its own bytes. -/
theorem lossy_encode (s : List Char) : lossy (encode s) = s := by
  rw [lossy, units_encode, List.map_map]
  exact List.map_id s

/-- **The bytes that are valid UTF-8** are those of the encoded texts. -/
theorem strict?_eq_some_iff {bs : Bytes} {s : List Char} :
    strict? bs = some s ↔ bs = encode s := by
  constructor
  · intro h
    rw [strict?] at h
    split at h
    next hall =>
      cases h
      refine (encode_lossy fun hm => ?_).symm
      exact absurd (List.all_eq_true.mp hall none hm) (by decide)
    next => cases h
  · rintro rfl
    have hall : (units (encode s)).all Option.isSome = true := by
      simp [units_encode]
    rw [strict?, if_pos hall, lossy_encode]

/-! ### Cut points -/

/-- A byte below 0x80 ends what was begun, and stands for itself. -/
theorem step_of_lt {q : State} (hq : Waiting q) {b : Nat} (hb : b < 0x80) :
    step q b = (unitsFrom q [] ++ [some (Char.ofNat b)], .start) := by
  cases q with
  | start => exact lead_one hb
  | within bits owed low high =>
      have hlow : ¬(low ≤ b ∧ b ≤ high) := by
        have := hq.1
        omega
      rw [step_cut hlow, lead_one hb]
      rfl

/-- An ASCII byte stands for itself whatever is around it. -/
theorem unitsFrom_append_cons {q : State} (hq : Waiting q) {x : UInt8} (hx : x.toNat < 0x80)
    (a b : Bytes) : unitsFrom q (a ++ x :: b) =
      unitsFrom q a ++ some (Char.ofNat x.toNat) :: unitsFrom .start b := by
  induction a generalizing q with
  | nil => simp [unitsFrom_cons, step_of_lt hq hx]
  | cons y a ih =>
      rw [List.cons_append, unitsFrom_cons, unitsFrom_cons, ih (waiting_step q y.toNat),
        List.append_assoc]

/-- A byte below 0x80 is a cut point. -/
theorem units_append_cons {x : UInt8} (hx : x.toNat < 0x80) (a b : Bytes) :
    units (a ++ x :: b) = units a ++ some (Char.ofNat x.toNat) :: units b :=
  unitsFrom_append_cons (q := .start) trivial hx a b

/-- A line feed separates what is decoded on its two sides. -/
theorem lossy_append_lineFeed (a b : Bytes) :
    lossy (a ++ 0x0A :: b) = lossy a ++ '\n' :: lossy b := by
  rw [lossy, units_append_cons (by decide), List.map_append, List.map_cons]
  rfl

end LintGate.Text.Utf8
