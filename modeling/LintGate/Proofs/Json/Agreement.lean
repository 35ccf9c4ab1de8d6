import LintGate.Proofs.Json.Passed
import LintGate.Proofs.Json.Records

/-!
# JSON — records and documents

A record is read straight from the text, and a document is read as a whole; where both can read,
they go through the text in step.  A reader *follows* documents if what it takes is told by the
document that stands there alone (`Reader.Follows`).  Truth values and strings do
(`readBool_follows`, `readString_follows`), and a record does if its fields do (`Record.follows`):
it is made of the items, or of the members, of the document (`Record.ofWritten`), and all it passes
over is not looked at.  So a text with a document stands for the record of that document
(`Reader.Follows.toOption_parseWith`).
-/

namespace LintGate.Json

variable {α : Type} {p : Reader α} {s r : List Char}

/-! ### Readers that follow documents -/

/-- The reader takes `o` off the front of `s` and leaves `r`, or fails if that is nothing. -/
def Reader.Does (p : Reader α) (s : List Char) (o : Option α) (r : List Char) : Prop :=
  (p s).toOption.map (fun x => (x.value, x.rest)) = o.map fun a => (a, r)

/-- Wherever a document can be read, the reader takes what `f` makes of the document and leaves the
same rest; if `f` makes nothing of it, the reader fails. -/
def Reader.Follows (p : Reader α) (f : Written → Option α) : Prop :=
  ∀ {d : Nat} {s r : List Char} {w : Written}, (value d).Takes s w r → p.Does s (f w) r

namespace Reader

/-- A reader comes to a value exactly if it takes it. -/
theorem does_some_iff {a : α} : p.Does s (some a) r ↔ p.Takes s a r := by
  rw [Does, Takes]
  cases p s with
  | error e => simp [Except.toOption, Except.map]
  | ok x => simp [Except.toOption, Except.map]

theorem Does.cases {o : Option α} (h : p.Does s o r) :
    (o = none ∧ ∃ e, p s = .error e) ∨ ∃ a hr, o = some a ∧ p s = .ok ⟨a, r, hr⟩ := by
  cases o with
  | none =>
      rw [Does] at h
      cases hp : p s with
      | error e => exact .inl ⟨rfl, e, rfl⟩
      | ok x =>
          rw [hp] at h
          cases h
  | some a =>
      obtain ⟨hr, hp⟩ := (does_some_iff.mp h).eq_ok
      exact .inr ⟨a, hr, rfl, hp⟩

/-- What is taken may be stored in something else. -/
theorem Follows.map {β : Type} {f : Written → Option α} (h : p.Follows f) (g : α → β) :
    Follows (fun s => (p s).map (Read.map g)) fun w => (f w).map g := by
  intro d s r w hw
  obtain ⟨hf, e, he⟩ | ⟨a, hr, hf, ha⟩ := (h hw).cases
  · simp only [Does, hf, he]
    rfl
  · simp only [Does, hf, ha]
    rfl

end Reader

/-! ### Truth values and strings -/

/-- The truth value that is written. -/
def Written.bool? : Written → Option Bool
  | .bool b => some b
  | _       => none

/-- The string that is written. -/
def Written.string? : Written → Option String
  | .string s => some s
  | _         => none

theorem Written.bool?_eq_some_iff {w : Written} {b : Bool} :
    w.bool? = some b ↔ w.value = .bool b := by
  cases w <;> simp [bool?, value]

theorem Written.string?_eq_some_iff {w : Written} {k : String} :
    w.string? = some k ↔ w.value = .string k := by
  cases w <;> simp [string?, value]

/-- Of the values that are written under a name the last one is meant. -/
theorem Written.get?_value_object (k : String) (ms : List (String × Written)) :
    (Written.object ms).value.get? k = (Members.named k ms).getLast?.map value := by
  rw [value, memberValues_eq_map, Value.get?, Members.get?_ofList, Members.named_map,
    List.getLast?_map]

/-- What begins a number begins no other value. -/
theorem ne_of_opensNumber {c e : Char} (hc : c = '-' ∨ isDigit c = true)
    (he : isDigit e = false ∧ e ≠ '-') : c ≠ e := by
  rintro rfl
  rcases hc with rfl | hc
  · exact he.2 rfl
  · rw [he.1] at hc
    cases hc

/-- The typed reader of truth values follows the generic one. -/
theorem readBool_follows : readBool.Follows Written.bool? := by
  intro d s r w hw
  obtain ⟨c, t, hs, hopens⟩ := Opens.exists_of_takes hw
  cases hopens with
  | yes h =>
      subst h
      obtain ⟨ht, hword⟩ := word_takes ['r', 'u', 'e'] r
      rw [Reader.Does, readBool, onToken_of_skipGap hs]
      simp only [hword, Except.map]
      rfl
  | no h =>
      subst h
      obtain ⟨ht, hword⟩ := word_takes ['a', 'l', 's', 'e'] r
      rw [Reader.Does, readBool, onToken_of_skipGap hs]
      simp only [hword, Except.map]
      rfl
  | number hc =>
      have htrue := ne_of_opensNumber (e := 't') hc (by decide)
      have hfalse := ne_of_opensNumber (e := 'f') hc (by decide)
      rw [Reader.Does, readBool, onToken_of_skipGap hs]
      split
      · exact absurd rfl htrue
      · exact absurd rfl hfalse
      · rfl
  | _ =>
      rw [Reader.Does, readBool, onToken_of_skipGap hs]
      rfl

/-- The typed reader of strings follows the generic one. -/
theorem readString_follows : readString.Follows Written.string? := by
  intro d s r w hw
  obtain ⟨c, t, hs, hopens⟩ := Opens.exists_of_takes hw
  cases hopens with
  | string h =>
      obtain ⟨ht, hstring⟩ := h.eq_ok
      rw [Reader.Does, readString, onToken_of_skipGap hs, if_pos rfl, hstring]
      rfl
  | number hc =>
      rw [Reader.Does, readString, onToken_of_skipGap hs,
        if_neg (ne_of_opensNumber hc (by decide))]
      rfl
  | _ =>
      rw [Reader.Does, readString, onToken_of_skipGap hs, if_neg (by decide)]
      rfl

/-! ### Records -/

namespace Record

variable {σ : Type} (d : Record σ α) (store : String → σ → Written → Option σ)

/-- The fields with one member more, where `store` tells what a field makes of a document.  A field
that has been given is not given again, and a member that is no field is left out. -/
def keep (st : σ) (m : String × Written) : Option σ :=
  match d.fields.find? (·.name == m.1) with
  | some f => if f.given st then none else store f.name st m.2
  | none   => some st

/-- The record of the fields `fs` from items, behind `count` of them. -/
def ofItems : (count : Nat) → List (Field σ) → σ → List Written → Option α
  | _, [], st, []           => (d.finish st).toOption
  | _, [], _, _ :: _        => none
  | n, _ :: _, st, []       => (d.short n st).toOption
  | n, f :: fs, st, w :: ws => (store f.name st w).bind fun st' => ofItems (n + 1) fs st' ws

/-- The record that a document makes up. -/
def ofWritten : Written → Option α
  | .array ws  => d.ofItems store 0 d.fields d.empty ws
  | .object ms => (ms.foldlM (d.keep store) d.empty).bind fun st => (d.finish st).toOption
  | _          => none

/-- What each field takes is told by the document that stands there. -/
def FieldsFollow : Prop :=
  ∀ f ∈ d.fields, ∀ st, (f.read st).Follows (store f.name st)

variable {d store}

/-- A member is stored, or passed over. -/
theorem member_does (h : d.FieldsFollow store) {depth : Nat} {m : String × Written} (st : σ)
    (hm : (Json.member (value depth)).Takes s m r) :
    (d.member st).Does s (d.keep store st m) r := by
  obtain ⟨t, u, hkey, hcolon, hw⟩ := exists_of_member_takes hm
  obtain ⟨hr, hkey⟩ := hkey.eq_ok
  rw [keep]
  cases hfind : d.fields.find? (·.name == m.1) with
  | none =>
      obtain ⟨hv, hskip⟩ := (skipValue_takes hw).eq_ok
      rw [Reader.Does, Record.member, hkey]
      simp only [hfind, hcolon, hskip]
      rfl
  | some f =>
      rw [Reader.Does, Record.member, hkey]
      cases hgiven : f.given st with
      | true =>
          simp only [hfind, hgiven, if_true]
          rfl
      | false =>
          simp only [hfind, hgiven, Bool.false_eq_true, if_false, hcolon]
          obtain ⟨hstore, e, he⟩ | ⟨st', hv, hstore, he⟩ :=
            (h f (List.mem_of_find?_eq_some hfind) st hw).cases
          · rw [hstore, he]
            rfl
          · rw [hstore, he]
            rfl

/-- The members of a record are stored one after the other. -/
theorem fromMembers_does (h : d.FieldsFollow store) {depth : Nat} {first : Bool}
    {ms : List (String × Written)} (st : σ)
    (hms : PartsAt nextKey (Json.member (value depth)) first s ms r) :
    (d.fromMembers first st).Does s (ms.foldlM (d.keep store) st) r := by
  induction hms generalizing st with
  | done hend => exact Reader.does_some_iff.mpr (fromMembers_done hend)
  | more hnext hm _ ih =>
      obtain ⟨ht, hnext⟩ := hnext
      rw [Reader.Does, fromMembers, hnext, List.foldlM_cons]
      obtain ⟨hkeep, e, he⟩ | ⟨st', hu, hkeep, hmember⟩ := (member_does h st hm).cases
      · simp only [hkeep, he]
        rfl
      · simp only [hkeep, hmember, Option.bind_eq_bind, Option.bind_some]
        obtain ⟨hfold, e, he⟩ | ⟨st'', hv, hfold, hrest⟩ := (ih st').cases
        · simp only [hfold, he]
          rfl
        · simp only [hfold, hrest]
          rfl

/-- An array with all fields has to end. -/
theorem closing_of_endsAt {first : Bool} (h : EndsAt nextItem first s r) :
    ∃ hr, closing s = .ok ⟨r, hr⟩ := by
  have hs := skipGap_of_endsAt_item h
  refine ⟨length_le_of_lt (length_lt_of_skipGap hs), ?_⟩
  rw [closing, onToken_of_skipGap hs, if_pos rfl]

theorem closing_of_goesOnAt {first : Bool} {t : List Char} (h : GoesOnAt nextItem first s t) :
    ∃ e, closing s = .error e := by
  have hne : (skipGap s).head? ≠ some ']' := by
    obtain ⟨hbracket, ⟨-, hs⟩ | ⟨-, u, hs, -⟩⟩ := skipGap_of_goesOnAt_item h
    · rwa [hs]
    · simp [hs]
  cases hs : skipGap s with
  | nil => exact ⟨_, by rw [closing, onToken_of_skipGap_nil hs]⟩
  | cons c u =>
      rw [hs] at hne
      have hc : c ≠ ']' := by simpa using hne
      rw [closing, onToken_of_skipGap hs, if_neg hc]
      split
      · split <;> exact ⟨_, rfl⟩
      · exact ⟨_, rfl⟩

/-- The items of a record are stored in the order of its fields. -/
theorem fromItems_does (h : d.FieldsFollow store) {depth : Nat} {fs : List (Field σ)}
    (hfs : ∀ f ∈ fs, f ∈ d.fields) (n : Nat) (st : σ) {ws : List Written}
    (hws : PartsAt nextItem (value depth) (n == 0) s ws r) :
    (d.fromItems n fs st s).toOption.map (fun x => (x.1, x.2.rest)) =
      (d.ofItems store n fs st ws).map fun a => (a, r) := by
  induction fs generalizing n st s ws with
  | nil =>
      rw [fromItems]
      cases hws with
      | done hend =>
          obtain ⟨hr, hclosing⟩ := closing_of_endsAt hend
          rw [ofItems, hclosing]
          cases d.finish st <;> rfl
      | more hnext =>
          obtain ⟨e, he⟩ := closing_of_goesOnAt hnext
          rw [ofItems, he]
          rfl
  | cons f fs ih =>
      rw [fromItems]
      cases hws with
      | done hend =>
          obtain ⟨hr, hnext⟩ := hend
          rw [ofItems, hnext]
          cases d.short n st <;> rfl
      | @more _ _ _ _ _ w ws hnext hw hrest =>
          obtain ⟨ht, hnext⟩ := hnext
          rw [ofItems, hnext]
          obtain ⟨hstore, e, he⟩ | ⟨st', hv, hstore, hread⟩ :=
            (h f (hfs f List.mem_cons_self) st hw).cases
          · simp only [hstore, he]
            rfl
          · have := ih (fun g hg => hfs g (List.mem_cons_of_mem _ hg)) (n + 1) st' hrest
            simp only [hstore, hread, Option.bind_some, ← this]
            cases d.fromItems (n + 1) fs st' _ <;> rfl

/-- **A record follows documents** if its fields do: it is made of the parts of the document that
are its fields. -/
theorem follows (h : d.FieldsFollow store) : d.read.Follows (d.ofWritten store) := by
  intro depth s r w hw
  obtain ⟨c, t, hs, hopens⟩ := Opens.exists_of_takes hw
  rw [Reader.Does, read, onToken_of_skipGap hs]
  cases hopens with
  | array hitems =>
      have := fromItems_does h (fun f hf => hf) 0 d.empty (.of_takes hitems)
      rw [ofWritten, ← this]
      cases d.fromItems 0 d.fields d.empty t <;> rfl
  | object hmembers =>
      rw [ofWritten]
      obtain ⟨hfold, e, he⟩ | ⟨st, hr, hfold, he⟩ :=
        (fromMembers_does h d.empty (.of_takes hmembers)).cases
      · simp only [hfold, he]
        rfl
      · simp only [hfold, he, Option.bind_some]
        cases d.finish st <;> rfl
  | number hc =>
      have harray := ne_of_opensNumber (e := '[') hc (by decide)
      have hobject := ne_of_opensNumber (e := '\x7b') hc (by decide)
      split
      · exact absurd rfl harray
      · exact absurd rfl hobject
      · rfl
  | _ => rfl

/-! ### Fields that are given once -/

/-- What stands for a field once the documents `ws` have been given for it one after the other: a
field can be given once. -/
def giveAll {β : Type} (f : Written → Option β) (soFar : Option β) (ws : List Written) :
    Option (Option β) :=
  ws.foldlM (fun b w => if b.isSome then none else (f w).map some) soFar

/-- A field that is not given more than once stands for its value. -/
theorem giveAll_named {β : Type} {g : Written → Option β} {k : String}
    {ms : List (String × Written)} (honce : (Members.keys ms).count k ≤ 1) :
    giveAll g none (Members.named k ms) =
      (Members.named k ms).getLast?.elim (some none) fun w => (g w).map some := by
  rcases Members.named_of_count_le_one honce with hnone | ⟨w, hone⟩
  · rw [hnone]
    rfl
  · rw [hone]
    cases hg : g w <;> simp [giveAll, hg]

theorem giveAll_cons {β : Type} (f : Written → Option β) (b : Option β) (w : Written)
    (ws : List Written) : giveAll f b (w :: ws) =
      (if b.isSome then none else (f w).map some).bind fun b' => giveAll f b' ws :=
  rfl

/-- The members of a record with one field are what is given for that field. -/
theorem foldlM_keep_of_single {β : Type} {d : Record (Option β) α} {f : Field (Option β)}
    {store : String → Option β → Written → Option (Option β)} {g : Written → Option β}
    (hfields : d.fields = [f]) (hgiven : f.given = Option.isSome)
    (hstore : ∀ b w, store f.name b w = (g w).map some) (b : Option β)
    (ms : List (String × Written)) :
    ms.foldlM (d.keep store) b = giveAll g b (Members.named f.name ms) := by
  induction ms generalizing b with
  | nil => rfl
  | cons m ms ih =>
      obtain ⟨k, w⟩ := m
      rw [List.foldlM_cons, keep, hfields]
      by_cases hk : k = f.name
      · subst hk
        simp only [List.find?_cons, beq_self_eq_true, hgiven, hstore, Members.named_cons_self,
          giveAll, List.foldlM_cons, ih]
      · have hne : (f.name == k) = false := beq_false_of_ne (Ne.symm hk)
        simp only [List.find?_cons, hne, List.find?_nil, Members.named_cons_of_ne hk]
        exact ih b

end Record

/-! ### Whole texts -/

/-- A text is read exactly if the reader takes it up to white space. -/
theorem parseWith_eq_ok_iff {text : String} {a : α} :
    parseWith p text = .ok a ↔ ∃ r, p.Takes text.toList a r ∧ skipGap r = [] := by
  rw [parseWith]
  constructor
  · intro h
    split at h
    · cases h
    next x hx =>
      split at h
      next hend =>
        cases h
        exact ⟨x.rest, Reader.takes_of_eq_ok hx, hend⟩
      · cases h
  · rintro ⟨r, hp, hend⟩
    obtain ⟨hr, hp⟩ := hp.eq_ok
    simp only [hp, hend]

theorem toOption_eq_some_iff {ε : Type} {x : Except ε α} {a : α} :
    x.toOption = some a ↔ x = .ok a := by
  cases x <;> simp [Except.toOption]

/-- **A text with a document** stands for what its reader makes of the document. -/
theorem Reader.Follows.toOption_parseWith {f : Written → Option α} (h : p.Follows f)
    {text : String} {w : Written} (hw : parseWritten text = .ok w) :
    (parseWith p text).toOption = f w := by
  obtain ⟨r, htakes, hend⟩ := parseWith_eq_ok_iff.mp hw
  obtain ⟨hf, e, he⟩ | ⟨b, hr, hf, hb⟩ := (h htakes).cases
  · rw [hf, parseWith, he]
    rfl
  · have hparse : parseWith p text = .ok b :=
      parseWith_eq_ok_iff.mpr ⟨r, Reader.takes_of_eq_ok hb, hend⟩
    rw [hf, hparse]
    rfl

end LintGate.Json
