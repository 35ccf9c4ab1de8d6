import LintGate.Payload
import LintGate.Proofs.Json.Agreement

/-!
# The payload — read from a document

A payload may be read from any object that does not repeat its members: it is read exactly if both
are there and are a truth value and a string, and then it is these two (`parse_iff_members`).  What
else the object holds, and how it is written, makes no difference.
-/

namespace LintGate.Payload

open Json

/-- What the fields of a payload make of documents. -/
def store (name : String) (d : Draft) (w : Written) : Option Draft :=
  if name = "continue" then w.bool?.map fun b => { d with proceed := some b }
  else w.string?.map fun t => { d with reason := some t }

/-- The reader of the payload follows the generic one. -/
theorem record_follows : record.read.Follows (record.ofWritten store) := by
  refine Record.follows fun f hf d => ?_
  rcases List.mem_pair.mp hf with rfl | rfl
  · exact readBool_follows.map fun b => { d with proceed := some b }
  · exact readString_follows.map fun t => { d with reason := some t }

theorem keep_continue (d : Draft) (w : Written) : record.keep store d ("continue", w) =
    if d.proceed.isSome then none else w.bool?.map fun b => { d with proceed := some b } :=
  rfl

theorem keep_stopReason (d : Draft) (w : Written) : record.keep store d ("stopReason", w) =
    if d.reason.isSome then none else w.string?.map fun t => { d with reason := some t } :=
  rfl

theorem keep_of_ne {k : String} (hproceed : k ≠ "continue") (hreason : k ≠ "stopReason")
    (d : Draft) (w : Written) : record.keep store d (k, w) = some d := by
  have hfind : record.fields.find? (·.name == k) = none := by
    simp [record, Ne.symm hproceed, Ne.symm hreason]
  simp only [Record.keep, hfind]

/-- The members of an object give the two fields independently of one another. -/
theorem foldlM_keep (d : Draft) (ms : List (String × Written)) :
    ms.foldlM (record.keep store) d =
      (Record.giveAll Written.bool? d.proceed (Members.named "continue" ms)).bind fun b =>
        (Record.giveAll Written.string? d.reason (Members.named "stopReason" ms)).map fun t =>
          ⟨b, t⟩ := by
  induction ms generalizing d with
  | nil => rfl
  | cons m ms ih =>
      obtain ⟨k, w⟩ := m
      rw [List.foldlM_cons]
      by_cases hproceed : k = "continue"
      · subst hproceed
        rw [keep_continue, Members.named_cons_self, Members.named_cons_of_ne (by decide),
          Record.giveAll_cons]
        cases d.proceed.isSome with
        | true => rfl
        | false =>
            cases w.bool? with
            | none => rfl
            | some b => exact ih { d with proceed := some b }
      · by_cases hreason : k = "stopReason"
        · subst hreason
          rw [keep_stopReason, Members.named_cons_of_ne (by decide), Members.named_cons_self,
            Record.giveAll_cons]
          cases d.reason.isSome with
          | true => simp
          | false =>
              cases w.string? with
              | none => simp
              | some t => exact ih { d with reason := some t }
        · rw [keep_of_ne hproceed hreason, Members.named_cons_of_ne hproceed,
            Members.named_cons_of_ne hreason]
          exact ih d

/-- From an object that repeats neither member a payload is made of the two. -/
theorem ofWritten_object {ms : List (String × Written)}
    (hproceed : (Members.keys ms).count "continue" ≤ 1)
    (hreason : (Members.keys ms).count "stopReason" ≤ 1) :
    record.ofWritten store (.object ms) =
      ((Members.named "continue" ms).getLast?.bind Written.bool?).bind fun b =>
        ((Members.named "stopReason" ms).getLast?.bind Written.string?).map fun t => ⟨b, t⟩ := by
  have hempty : record.empty = ⟨none, none⟩ := rfl
  rw [Record.ofWritten, foldlM_keep, hempty, Record.giveAll_named hproceed,
    Record.giveAll_named hreason]
  -- a field that is missing or is of another kind leaves no payload, whatever the other one is
  cases (Members.named "continue" ms).getLast? with
  | none =>
      cases (Members.named "stopReason" ms).getLast? with
      | none => rfl
      | some w => cases hw : w.string? <;> simp [hw, record, Except.toOption]
  | some v =>
      cases (Members.named "stopReason" ms).getLast? with
      | none => cases hv : v.bool? <;> simp [hv, record, Except.toOption]
      | some w =>
          cases hv : v.bool? <;> cases hw : w.string? <;>
            simp [hv, hw, record, Except.toOption]

theorem bind_bool?_eq_some_iff {o : Option Written} {b : Bool} :
    o.bind Written.bool? = some b ↔ o.map Written.value = some (.bool b) := by
  cases o <;> simp [Written.bool?_eq_some_iff]

theorem bind_string?_eq_some_iff {o : Option Written} {t : String} :
    o.bind Written.string? = some t ↔ o.map Written.value = some (.string t) := by
  cases o <;> simp [Written.string?_eq_some_iff]

/-- **A payload in a document.**  From an object that repeats neither of its members a payload is
read exactly if the two are there as a truth value and a string, and it is these two. -/
theorem parse_iff_members {text : String} {root : Members} {ms : List (String × Written)}
    (hread : Json.parse text = .ok (.object root)) (hw : parseWritten text = .ok (.object ms))
    (hproceed : (Members.keys ms).count "continue" ≤ 1)
    (hreason : (Members.keys ms).count "stopReason" ≤ 1) (p : Payload) :
    parse text = .ok p ↔
      Members.get? "continue" root = some (.bool p.proceed) ∧
      Members.get? "stopReason" root = some (.string p.reason) := by
  have hroot : (Written.object ms).value = .object root := by
    rw [Json.parse, hw] at hread
    exact Except.ok.inj hread
  have hget (k : String) :
      Members.get? k root = (Members.named k ms).getLast?.map Written.value := by
    rw [← Written.get?_value_object, hroot, Value.get?]
  rw [← toOption_eq_some_iff, parse, record_follows.toOption_parseWith hw,
    ofWritten_object hproceed hreason, hget, hget, ← bind_bool?_eq_some_iff,
    ← bind_string?_eq_some_iff, Option.bind_eq_some_iff]
  constructor
  · rintro ⟨b, hb, hp⟩
    obtain ⟨t, ht, rfl⟩ := Option.map_eq_some_iff.mp hp
    exact ⟨hb, ht⟩
  · rintro ⟨hb, ht⟩
    exact ⟨p.proceed, hb, Option.map_eq_some_iff.mpr ⟨p.reason, ht, rfl⟩⟩

/-- The two members may come in any order and with escapes, with others of any kind around them. -/
theorem parse_iff_members_escaped :
    let text := "\x7b \"stop\\u0052eason\":\t\"\\ud83d\\ude00\",
      \"x\":[\x7b\"continue\":1.5\x7d,[\"stopReason\"]],\"\":null,\"c\\u006fntinue\":false\x7d\n"
    ∃ root ms, Json.parse text = .ok (.object root) ∧ parseWritten text = .ok (.object ms) ∧
      (Members.keys ms).count "continue" ≤ 1 ∧ (Members.keys ms).count "stopReason" ≤ 1 ∧
      parse text = .ok ⟨false, "😀"⟩ := by
  intro text
  have hw : (parseWritten text).toOption = some (.object [("stopReason", .string "😀"),
      ("x", .array [.object [("continue", .number ⟨false, ['1'], ['5'], none⟩
        (.double ⟨false, 3 <<< 1073⟩) (by decide +kernel))], .array [.string "stopReason"]]),
      ("", .null), ("continue", .bool false)]) := by decide +kernel
  rw [toOption_eq_some_iff] at hw
  have hread := congrArg (Except.map Written.value) hw
  exact ⟨_, _, hread, hw, by decide, by decide,
    (parse_iff_members hread hw (by decide) (by decide) _).mpr ⟨rfl, rfl⟩⟩

end LintGate.Payload
