import LintGate.Proofs.Gate
import LintGate.Proofs.Json.Records

/-!
# The payload — one line that loses nothing

A payload is written as one line of printable characters, and both readers find it in that line
(`parse_toJson`, `parse_json_toJson`).  Its reason is the banner and one bulleted line for each
issue, and no issue holds a line feed, so the issues are found in the line again
(`Carries.injective`).  The payload itself survives whatever stands in the issues
(`toJson_faithful`).
-/

namespace LintGate.Payload

open Json Text

/-! ### The line of a payload -/

/-- What stands in a payload's line behind its opening brace. -/
theorem toJson_toList (p : Payload) : p.toJson.toList = '\x7b' ::
    (stringChars "continue" ++ ':' :: ((Value.bool p.proceed).chars .compact 1 ++
      (',' :: (stringChars "stopReason" ++ ':' :: (stringChars p.reason ++ ['\x7d']))))) := by
  rw [toJson, Value.compact, String.toList_ofList, toValue]
  simp only [Value.chars, Value.moreMembers, Style.compact, List.cons_append, List.append_assoc,
    List.nil_append]

/-- No control character stands in a payload line. -/
theorem space_le_of_mem_toJson {p : Payload} {c : Char} (h : c ∈ p.toJson.toList) : ' ' ≤ c := by
  have hword : ((Value.bool p.proceed).chars .compact 1).all (fun d => ' ' ≤ d) = true := by
    cases p.proceed <;> rfl
  simp only [toJson_toList, List.mem_cons, List.mem_append, List.not_mem_nil, or_false] at h
  -- the brace, the two keys and values with what stands between them, and the brace
  rcases h with rfl | h | rfl | h | rfl | h | rfl | h | rfl
  · decide
  · exact space_le_of_mem_stringChars h
  · decide
  · exact of_decide_eq_true (List.all_eq_true.mp hword c h)
  · decide
  · exact space_le_of_mem_stringChars h
  · decide
  · exact space_le_of_mem_stringChars h
  · decide

theorem lineFeed_not_mem_toJson (p : Payload) : '\n' ∉ p.toJson.toList :=
  fun h => absurd (space_le_of_mem_toJson h) (by decide)

/-! ### Reading it back -/

/-- The payload is a sound document. -/
theorem sound_toValue (p : Payload) : p.toValue.Sound depthLimit := by
  have hkeys : ["continue", "stopReason"].Nodup := by decide
  refine .object (d := 126) hkeys ?_
  intro m hm
  rcases List.mem_pair.mp hm with rfl | rfl
  · exact .bool _
  · exact .string _

/-- Any reader of documents finds the payload as it was written. -/
theorem parse_json_toJson (p : Payload) : Json.parse p.toJson = .ok p.toValue := by
  have h := parse_chars spaced_compact (sound_toValue p) rfl gap_nil
  rwa [List.append_nil] at h

theorem proceed_takes (b : Bool) (r : List Char) :
    (record.member record.empty).Takes ("continue".toList.flatMap escapeChar ++
      '"' :: ':' :: ((Value.bool b).chars .compact 1 ++ r)) { proceed := some b } r :=
  Record.member_takes rfl rfl ((readBool_takes .compact 1 b r).map _)

theorem reason_takes (b : Bool) (s : String) (r : List Char) :
    (record.member { proceed := some b }).Takes ("stopReason".toList.flatMap escapeChar ++
      '"' :: ':' :: (stringChars s ++ r)) { proceed := some b, reason := some s } r :=
  Record.member_takes rfl rfl ((readString_takes s r).map _)

/-- And so does the reader of payloads. -/
theorem parse_toJson (p : Payload) : parse p.toJson = .ok p := by
  obtain ⟨b, reason⟩ := p
  have hend : (record.fromMembers false ⟨some b, some reason⟩).Takes ['\x7d']
      ⟨some b, some reason⟩ [] := Record.fromMembers_done (nextKey_done false gap_nil [])
  have hsecond := Record.fromMembers_more (nextKey_comma gap_nil _)
    (reason_takes b reason ['\x7d']) hend
  have hall := Record.fromMembers_more (nextKey_first gap_nil _) (proceed_takes b _) hsecond
  have hread := Record.read_object hall rfl
  rw [parse, ← String.ofList_toList (s := toJson _), toJson_toList]
  refine parseWith_of_takes gap_nil ?_
  simpa only [stringChars, List.cons_append, List.append_assoc, List.nil_append] using hread

/-! ### The issues in the reason -/

/-- The reason is the banner, and each issue behind a bullet on a line of its own. -/
theorem reasonFor_toList (issues : List String) : (reasonFor issues).toList = banner.toList ++
    (issues.map fun i => bullet.toList ++ i.toList).flatMap fun l => '\n' :: l := by
  rw [reasonFor, String.toList_append, List.flatMap_map]
  congr 1
  induction issues with
  | nil => rfl
  | cons i is ih =>
      rw [List.map_cons, String.join_cons, String.toList_append, ih, List.flatMap_cons,
        String.toList_append, String.toList_append]
      rfl

/-- Issues without a line feed are the lines of the reason below the banner. -/
theorem split_reasonFor {issues : List String} (h : ∀ i ∈ issues, '\n' ∉ i.toList) :
    split '\n' (reasonFor issues).toList =
      banner.toList :: issues.map fun i => bullet.toList ++ i.toList := by
  rw [reasonFor_toList]
  refine split_flatMap (by decide) ?_
  intro l hl
  obtain ⟨i, hi, rfl⟩ := List.mem_map.mp hl
  have hbullet : '\n' ∉ bullet.toList := by decide
  exact fun hm => (List.mem_append.mp hm).elim hbullet (h i hi)

/-- **A payload survives its line.**  Whatever its reason holds, its line is read back as the
payload, so no two payloads share a line, and all of it is printable: it is a single line.  That is
so for every list of texts that is taken for issues, each of which stands in the reason as it is,
with the line feeds in it. -/
theorem toJson_faithful :
    Function.Injective toJson ∧
    (∀ p : Payload, parse p.toJson = .ok p ∧ (∀ c ∈ p.toJson.toList, ' ' ≤ c) ∧
      '\n' ∉ p.toJson.toList) ∧
    ∀ issues : List String, ∃ reason, parse (block issues).toJson = .ok ⟨false, reason⟩ ∧
      reason.toList = banner.toList ++
        issues.flatMap fun i => '\n' :: (bullet.toList ++ i.toList) := by
  refine ⟨?_, fun p => ⟨parse_toJson p, fun _ => space_le_of_mem_toJson, ?_⟩, fun issues => ?_⟩
  · intro p q h
    have hread := parse_toJson p
    rw [h, parse_toJson q] at hread
    cases hread
    rfl
  · exact lineFeed_not_mem_toJson p
  · refine ⟨reasonFor issues, parse_toJson (block issues), ?_⟩
    rw [reasonFor_toList, List.flatMap_map]

/-- Below the space everything is escaped, and above it the quote and the backslash. -/
example : toJson ⟨true, "a\n\u0001\"\u007f😀"⟩ =
    "\x7b\"continue\":true,\"stopReason\":\"a\\n\\u0001\\\"\u007f😀\"\x7d" := by
  decide

/-- The line holds the stop back for exactly these issues: it is one line of printable characters,
and what both readers find in it is a reason that lists them. -/
structure Carries (line : String) (issues : List String) : Prop where
  one_line : '\n' ∉ line.toList
  printable : ∀ c ∈ line.toList, ' ' ≤ c
  read_back : ∃ reason,
    Json.parse line = .ok (.object [("continue", .bool false), ("stopReason", .string reason)]) ∧
    parse line = .ok ⟨false, reason⟩ ∧
    split '\n' reason.toList = banner.toList :: issues.map fun i => bullet.toList ++ i.toList

/-- The line of a payload carries its issues. -/
theorem carries_block {issues : List String} (h : ∀ i ∈ issues, '\n' ∉ i.toList) :
    Carries (block issues).toJson issues where
  one_line := lineFeed_not_mem_toJson _
  printable _ := space_le_of_mem_toJson
  read_back := ⟨reasonFor issues, parse_json_toJson _, parse_toJson _, split_reasonFor h⟩

/-- A line carries one list of issues. -/
theorem Carries.injective {line : String} {issues issues' : List String}
    (h : Carries line issues) (h' : Carries line issues') : issues = issues' := by
  obtain ⟨reason, -, hread, hsplit⟩ := h.read_back
  obtain ⟨reason', -, hread', hsplit'⟩ := h'.read_back
  obtain rfl : reason = reason' := by
    rw [hread] at hread'
    cases hread'
    rfl
  have hlines := (List.cons.inj (hsplit.symm.trans hsplit')).2
  have hbullet : Function.Injective fun i : String => bullet.toList ++ i.toList := by
    intro i j hij
    exact String.toList_inj.mp (List.append_cancel_left hij)
  exact List.map_injective_iff.mpr hbullet hlines

end LintGate.Payload

namespace LintGate.Gate

open Payload

/-- **The payload loses nothing.**  With an issue in the output, whatever else the linter left
behind and whatever the options are, one line is printed and the stop is held back; the line carries
the issues, and no output with other issues has the same one. -/
theorem report_carries {c : Captured} (h : Issue.ofOutput c.stdout ≠ []) (o : Options)
    (a : Announcer) :
    (report o a .working c).result = .ok .block ∧
    ∃ line, (report o a .working c).trace.stdout = line ++ "\n" ∧
      Carries line (Issue.ofOutput c.stdout) ∧
      ∀ (o' : Options) (a' : Announcer) (c' : Captured),
        Issue.ofOutput c'.stdout ≠ [] → Issue.ofOutput c'.stdout ≠ Issue.ofOutput c.stdout →
        (report o' a' .working c').trace.stdout ≠ line ++ "\n" := by
  have carries (c : Captured) :
      Carries (block (Issue.ofOutput c.stdout)).toJson (Issue.ofOutput c.stdout) :=
    carries_block fun _ => Issue.not_mem_of_mem_ofOutput
  refine ⟨result_report_block h o a, _, stdout_report_block h o a, carries c, ?_⟩
  intro o' a' c' h' hne hsame
  rw [stdout_report_block h' o' a', String.append_left_inj] at hsame
  exact hne ((hsame ▸ carries c').injective (carries c))

/-- An output with every kind of character to escape, and the two issues in it. -/
theorem report_carries_escapes :
    let c : Captured :=
      { stdout := " \"a\\b\" \u0001• é\r\n\u2003\n• c\t ", stderr := "e", status := none }
    (report {} .recorder .working c).result = .ok .block ∧
    ∃ line, (report {} .recorder .working c).trace.stdout = line ++ "\n" ∧
      Carries line ["\"a\\b\" \u0001• é", "• c"] := by
  intro c
  have h : Issue.ofOutput c.stdout = ["\"a\\b\" \u0001• é", "• c"] := by decide
  obtain ⟨hblock, line, hline, hcarries, -⟩ :=
    report_carries (h ▸ List.cons_ne_nil _ _) {} .recorder
  exact ⟨hblock, line, hline, h ▸ hcarries⟩

end LintGate.Gate
