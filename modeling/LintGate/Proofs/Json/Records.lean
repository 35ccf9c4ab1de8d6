import LintGate.Json.Record
import LintGate.Proofs.Json.RoundTrip

/-!
# JSON — records read back

What a record reads from an object that is written as its fields: each field behind its key
(`Record.member_takes`), one after the other up to the end (`Record.fromMembers_more`,
`Record.fromMembers_done`), and the finished record (`Record.read_object`).
-/

namespace LintGate.Json

theorem readBool_takes (st : Style) (level : Nat) (b : Bool) (r : List Char) :
    readBool.Takes ((Value.bool b).chars st level ++ r) b r := by
  cases b with
  | false =>
      obtain ⟨h, hw⟩ := word_takes ['a', 'l', 's', 'e'] r
      change readBool.Takes ('f' :: (['a', 'l', 's', 'e'] ++ r)) false r
      rw [Reader.Takes, readBool, onToken_cons (by decide)]
      simp only [hw, Except.map]
  | true =>
      obtain ⟨h, hw⟩ := word_takes ['r', 'u', 'e'] r
      change readBool.Takes ('t' :: (['r', 'u', 'e'] ++ r)) true r
      rw [Reader.Takes, readBool, onToken_cons (by decide)]
      simp only [hw, Except.map]

theorem readString_takes (s : String) (r : List Char) :
    readString.Takes (stringChars s ++ r) s r := by
  obtain ⟨h, hs⟩ := (string_takes s r).eq_ok
  have htext : stringChars s ++ r = '"' :: (s.toList.flatMap escapeChar ++ '"' :: r) := by
    simp only [stringChars, List.cons_append, List.append_assoc, List.nil_append]
  rw [htext, Reader.Takes, readString, onToken_cons (by decide), if_pos rfl, hs]
  rfl

/-- What is taken may be stored in something else. -/
theorem Reader.Takes.map {α β : Type} {p : Reader α} {s r : List Char} {a : α}
    (h : p.Takes s a r) (f : α → β) :
    Reader.Takes (fun s => (p s).map (Read.map f)) s (f a) r := by
  obtain ⟨hr, hp⟩ := h.eq_ok
  rw [Reader.Takes, hp]
  rfl

namespace Record

variable {σ α : Type} {d : Record σ α} {f : Field σ} {st st' : σ} {s r : List Char}

/-- A field that has not been given is read behind its key. -/
theorem member_takes {k : String} (hf : d.fields.find? (·.name == k) = some f)
    (hnew : f.given st = false) (h : (f.read st).Takes s st' r) :
    (d.member st).Takes (k.toList.flatMap escapeChar ++ '"' :: ':' :: s) st' r := by
  obtain ⟨hk, hkey⟩ := (string_takes k (':' :: s)).eq_ok
  obtain ⟨hc, hcolon⟩ := colon_takes s
  obtain ⟨hr, hread⟩ := h.eq_ok
  rw [Reader.Takes, Record.member, hkey]
  simp only [hf, hnew, Bool.false_eq_true, if_false, hcolon, hread, Except.map, Read.widen]

theorem fromMembers_done {first : Bool} (h : EndsAt nextKey first s r) :
    (d.fromMembers first st).Takes s st r := by
  obtain ⟨hr, hnext⟩ := h
  rw [Reader.Takes, fromMembers, hnext]
  rfl

theorem fromMembers_more {first : Bool} {t u : List Char} {st'' : σ}
    (h : GoesOnAt nextKey first s t) (hm : (d.member st).Takes t st' u)
    (hms : (d.fromMembers false st').Takes u st'' r) :
    (d.fromMembers first st).Takes s st'' r := by
  obtain ⟨ht, hnext⟩ := h
  obtain ⟨hu, hm⟩ := hm.eq_ok
  obtain ⟨hr, hms⟩ := hms.eq_ok
  rw [Reader.Takes, fromMembers, hnext]
  simp only [hm, hms, Except.map, Read.widen]

theorem read_object {a : α} (h : (d.fromMembers true d.empty).Takes s st r)
    (ha : d.finish st = .ok a) : d.read.Takes ('\x7b' :: s) a r := by
  obtain ⟨hr, hread⟩ := h.eq_ok
  rw [Reader.Takes, read, onToken_cons (by decide)]
  simp only [hread, ha, orFault, Except.map]

end Record

end LintGate.Json
