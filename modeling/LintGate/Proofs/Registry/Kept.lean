import LintGate.Proofs.Json.Exact
import LintGate.Proofs.Registry.Stored

/-!
# The registry — what an installation keeps of the settings

An installation rewrites the whole settings file.  Outside the array of stop entries the new text
denotes what was meant by the old one, and so what the old one denotes exactly if the numerals there
are held (`install_keeps`).  Whole numbers in the range of their words are held; others go through a
double, and may come out as another number (`install_changes_number`).
-/

namespace LintGate

open Json Text

/-! ### Documents outside the stop entries -/

namespace Json

namespace Exact

/-- The members of an object; anything else has none. -/
def members : Exact → List (String × Exact)
  | .object ms => ms
  | _          => []

/-- The members of the hooks. -/
def hooks (x : Exact) : List (String × Exact) :=
  ((Members.get? "hooks" x.members).map members).getD []

/-- The document with these stop entries, and all else as it is. -/
def withStop (stop : List Exact) (x : Exact) : Exact :=
  .object (Members.put "hooks" (.object (Members.put "Stop" (.array stop) x.hooks)) x.members)

end Exact

namespace Written

/-- The members of an object; anything else has none. -/
def members : Written → List (String × Written)
  | .object ms => ms
  | _          => []

/-- The members of the hooks. -/
def hooks (w : Written) : List (String × Written) :=
  ((Members.get? "hooks" w.members).map members).getD []

/-- The numerals outside the stop entries are held. -/
structure HeldOutsideStop (w : Written) : Prop where
  /-- Those of every member but the hooks. -/
  members : ∀ m ∈ w.members, m.1 ≠ "hooks" → m.2.Held
  /-- Among the hooks, those of every member but the stop entries. -/
  hooks : ∀ m ∈ w.hooks, m.1 ≠ "Stop" → m.2.Held

variable {w : Written}

namespace NamedOnce

/-- What names nothing twice has members with names of their own. -/
theorem distinct_members (h : w.NamedOnce) : Members.Distinct w.members := by
  cases h with
  | object hd _ => exact hd
  | _ => exact List.nodup_nil

theorem of_mem_members (h : w.NamedOnce) : ∀ m ∈ w.members, m.2.NamedOnce := by
  cases h with
  | object _ h => exact h
  | _ => exact fun _ hm => nomatch hm

/-- The hooks of what names nothing twice name nothing twice. -/
theorem hooks (h : w.NamedOnce) :
    Members.Distinct w.hooks ∧ ∀ m ∈ w.hooks, m.2.NamedOnce := by
  rw [Written.hooks]
  cases hget : Members.get? "hooks" w.members with
  | none => exact ⟨List.nodup_nil, fun _ hm => nomatch hm⟩
  | some v =>
      have hv := h.of_mem_members _ (Members.mem_of_get? hget)
      exact ⟨hv.distinct_members, hv.of_mem_members⟩

end NamedOnce

/-- What a document denotes has its members, each as what it denotes. -/
theorem members_exact (w : Written) :
    w.exact.members = w.members.map fun m => (m.1, m.2.exact) := by
  cases w with
  | object ms => exact memberExacts_eq_map ms
  | _ => rfl

theorem members_value_exact (h : w.NamedOnce) :
    w.value.exact.members = w.members.map fun m => (m.1, m.2.value.exact) := by
  cases h with
  | @object ms hd _ =>
      rw [value_object hd, Value.exact, Value.memberExacts_eq_map, List.map_map]
      rfl
  | _ => rfl

/-- What a document denotes has its hooks, each as what it denotes. -/
theorem hooks_exact (w : Written) :
    w.exact.hooks = w.hooks.map fun m => (m.1, m.2.exact) := by
  rw [Exact.hooks, members_exact, Members.get?_map, hooks]
  cases Members.get? "hooks" w.members with
  | none => rfl
  | some v => exact members_exact v

theorem hooks_value_exact (h : w.NamedOnce) :
    w.value.exact.hooks = w.hooks.map fun m => (m.1, m.2.value.exact) := by
  have hmap : Members.get? "hooks" (w.members.map fun m => (m.1, m.2.value.exact)) =
      (Members.get? "hooks" w.members).map fun v => v.value.exact :=
    Members.get?_map (f := fun v : Written => v.value.exact)
  rw [Exact.hooks, members_value_exact h, hmap, hooks]
  cases hget : Members.get? "hooks" w.members with
  | none => rfl
  | some v => exact members_value_exact (h.of_mem_members _ (Members.mem_of_get? hget))

/-- Objects with one member put in denote the same exactly if the members do and the others are
held. -/
theorem put_exact_iff {k : String} {x y : Exact} {ms : List (String × Written)}
    (hd : Members.Distinct ms) (hms : ∀ m ∈ ms, m.2.NamedOnce) :
    Members.put k x (ms.map fun m => (m.1, m.2.value.exact)) =
      Members.put k y (ms.map fun m => (m.1, m.2.exact)) ↔
    x = y ∧ ∀ m ∈ ms, m.1 ≠ k → m.2.Held := by
  have hkeys : Members.keys (ms.map fun m => (m.1, m.2.value.exact)) =
      Members.keys (ms.map fun m => (m.1, m.2.exact)) := by
    rw [Members.keys, Members.keys, List.map_map, List.map_map]
    rfl
  have hdistinct : Members.Distinct (ms.map fun m => (m.1, m.2.value.exact)) :=
    (Members.distinct_map (f := fun v : Written => v.value.exact)).mpr hd
  have hothers : Members.others k (ms.map fun m => (m.1, m.2.value.exact)) =
      (Members.others k ms).map fun m => (m.1, m.2.value.exact) :=
    Members.others_map (f := fun v : Written => v.value.exact)
  rw [Members.put_eq_put_iff hkeys hdistinct, hothers, Members.others_map, List.map_inj_left]
  refine and_congr_right fun _ => ?_
  constructor
  · intro h m hm hne
    have := h m (Members.mem_others.mpr ⟨hm, hne⟩)
    exact (exact_value_iff (hms m hm)).mp (Prod.mk.inj this).2
  · intro h m hm
    obtain ⟨hmem, hne⟩ := Members.mem_others.mp hm
    rw [(exact_value_iff (hms m hmem)).mpr (h m hmem hne)]

/-- **Outside the stop entries** a document denotes what it means exactly if the numerals there are
held. -/
theorem withStop_exact_iff (h : w.NamedOnce) (stop : List Exact) :
    (∃ stop', w.value.exact.withStop stop = w.exact.withStop stop') ↔ w.HeldOutsideStop := by
  have hiff : ∀ stop', w.value.exact.withStop stop = w.exact.withStop stop' ↔
      (stop = stop' ∧ ∀ m ∈ w.hooks, m.1 ≠ "Stop" → m.2.Held) ∧
        ∀ m ∈ w.members, m.1 ≠ "hooks" → m.2.Held := by
    intro stop'
    rw [Exact.withStop, Exact.withStop, members_exact, hooks_exact, members_value_exact h,
      hooks_value_exact h, Exact.object.injEq, put_exact_iff h.distinct_members h.of_mem_members,
      Exact.object.injEq, put_exact_iff h.hooks.1 h.hooks.2, Exact.array.injEq]
  constructor
  · rintro ⟨stop', heq⟩
    obtain ⟨⟨-, hhooks⟩, hmembers⟩ := (hiff stop').mp heq
    exact ⟨hmembers, hhooks⟩
  · rintro ⟨hmembers, hhooks⟩
    exact ⟨stop, (hiff stop).mpr ⟨⟨rfl, hhooks⟩, hmembers⟩⟩

/-- Numerals that are all held are held in each member. -/
theorem Held.of_mem_members (h : w.Held) : ∀ m ∈ w.members, m.2.Held := by
  cases h with
  | object h => exact h
  | _ => exact fun _ hm => nomatch hm

/-- Numerals that are all held are held outside the stop entries. -/
theorem Held.outsideStop (h : w.Held) : w.HeldOutsideStop where
  members m hm _ := h.of_mem_members m hm
  hooks m hm _ := by
    rw [Written.hooks] at hm
    cases hget : Members.get? "hooks" w.members with
    | none => rw [hget] at hm; cases hm
    | some v =>
        rw [hget] at hm
        exact (h.of_mem_members _ (Members.mem_of_get? hget)).of_mem_members m hm

end Written

end Json

namespace Registry

variable {r : Registry} {c root path : String} {files : Node} {content : Bytes} {w : Written}

/-- The document that a file's content spells, if it spells one. -/
def written? (content : Bytes) : Option Written :=
  (Utf8.strict? content).bind fun s => (parseWritten (String.ofList s)).toOption

/-- Settings are what the document in their file means. -/
theorem ofFile_eq_ok_iff : ofFile path content = .ok r ↔
    ∃ w, written? content = some w ∧ w.value = .object r.root := by
  rw [ofFile, written?]
  cases Utf8.strict? content with
  | none =>
      constructor
      · rintro ⟨⟩
      · rintro ⟨_, ⟨⟩, _⟩
  | some s =>
      simp only [parse, Option.bind_some]
      cases parseWritten (String.ofList s) with
      | error e =>
          constructor
          · rintro ⟨⟩
          · rintro ⟨_, ⟨⟩, _⟩
      | ok w =>
          simp only [Except.map, Except.toOption, Option.some.injEq, exists_eq_left']
          cases w.value with
          | object ms =>
              constructor
              · rintro ⟨⟩
                rfl
              · rintro ⟨⟩
                rfl
          | _ => simp

/-- The settings read from a file are the value of its text. -/
theorem value_of_ofFile (h : ofFile path content = .ok r) (hw : written? content = some w) :
    w.value = .object r.root := by
  obtain ⟨w', hw', hvalue⟩ := ofFile_eq_ok_iff.mp h
  obtain rfl : w' = w := Option.some.inj (hw'.symm.trans hw)
  exact hvalue

/-- An installation keeps numbers within a word. -/
theorem fits_install (h : (Value.object r.root).Fits) (c : String) :
    (Value.object (r.install c).2.root).Fits :=
  inherited_install (d := 0) Value.inherited_fits h ((sound_entryFor 0 c).fits rfl)

/-- The text of settings is a document that spells them. -/
theorem exists_written_text (hsound : (Value.object r.root).Sound depthLimit)
    (hfits : (Value.object r.root).Fits) :
    ∃ w, written? (Utf8.encode r.text.toList) = some w ∧ w.Spells (.object r.root) := by
  have hstrict := Utf8.strict?_eq_some_iff.mpr (rfl : Utf8.encode r.text.toList = _)
  have hgap : Gap "\n".toList := gap_cons (by decide) gap_nil
  obtain ⟨w, hparse, hw⟩ := parseWritten_chars spaced_indented hsound hfits hgap
  refine ⟨w, ?_, hw⟩
  have htext : String.ofList r.text.toList =
      String.ofList ((Value.object r.root).chars .indented 0 ++ "\n".toList) := by
    rw [text, Value.indented, String.toList_append, String.toList_ofList]
  rw [written?, hstrict, Option.bind_some, htext, hparse]
  rfl

/-- What settings denote has their hooks, each as what it denotes. -/
theorem hooks_exact (r : Registry) : (Value.object r.root).exact.hooks =
    r.hooks.map fun m => (m.1, m.2.exact) := by
  have hmembers : (Value.object r.root).exact.members = r.root.map fun m => (m.1, m.2.exact) :=
    Value.memberExacts_eq_map r.root
  rw [Exact.hooks, hmembers, Members.get?_map, hooks]
  cases Members.get? "hooks" r.root with
  | none => rfl
  | some v =>
      cases v with
      | object hs => exact Value.memberExacts_eq_map hs
      | _ => rfl

/-- What the settings denote after an installation. -/
theorem exact_install (h : (r.install c).1 = .ok true) :
    (Value.object (r.install c).2.root).exact = (Value.object r.root).exact.withStop
      ((r.entries ++ [entryFor c]).map Value.exact) := by
  rcases install_cases c r with ⟨-, hdo⟩ | ⟨-, hdo⟩ | ⟨m, hdo, -⟩
  · rw [hdo] at h
    cases h
  · rw [hdo, setEntries_of_ne_nil (by simp), Exact.withStop, hooks_exact, Value.exact, Value.exact,
      Value.memberExacts_eq_map, Value.memberExacts_eq_map, ← Members.put_map, Value.exact,
      Value.memberExacts_eq_map, ← Members.put_map, Value.exact, Value.itemExacts_eq_map]
    rfl
  · rw [hdo] at h
    cases h

/-- The settings rewritten by an installation spell what was meant before, with new stop entries. -/
theorem exists_written_install (hfile : ofFile path content = .ok r)
    (hw : written? content = some w) (hok : (r.install c).1 = .ok true) :
    ∃ w', written? (Utf8.encode (r.install c).2.text.toList) = some w' ∧
      w'.exact = w.value.exact.withStop ((r.entries ++ [entryFor c]).map Value.exact) := by
  have hvalue := value_of_ofFile hfile hw
  have hfits := fits_install (hvalue ▸ w.fits_value) c
  have hsound : (Value.object (r.install c).2.root).Sound depthLimit :=
    sound_install (sound_of_ofFile hfile) c
  obtain ⟨w', hw', hspells⟩ := exists_written_text hsound hfits
  exact ⟨w', hw', by rw [hspells.exact, exact_install hok, hvalue]⟩

/-! ### A document with one number -/

/-- The name and the numeral of a document's only member. -/
def soleNumeral? : Written → Option (String × Numeral)
  | .object [(k, .number n _ _)] => some (k, n)
  | _                            => none

/-- A document with a sole numeral is an object with that as its only member. -/
theorem exists_of_soleNumeral? {w : Written} {k : String} {n : Numeral}
    (h : soleNumeral? w = some (k, n)) :
    ∃ v hv, w = .object [(k, .number n v hv)] := by
  unfold soleNumeral? at h
  split at h
  · cases h
    exact ⟨_, _, rfl⟩
  · cases h

/-- A file with such a document holds settings that a command can be put into. -/
theorem exists_of_numeral {n : Numeral} (path c : String)
    (h : (written? content).bind soleNumeral? = some ("n", n)) :
    ∃ v, ∃ hv : n.number? = .ok v, written? content = some (.object [("n", .number n v hv)]) ∧
      ofFile path content = .ok ⟨[("n", .number v)]⟩ ∧
      (Written.object [("n", .number n v hv)]).NamedOnce ∧
      (install c ⟨[("n", .number v)]⟩).1 = .ok true := by
  obtain ⟨w, hw, hn⟩ := Option.bind_eq_some_iff.mp h
  obtain ⟨v, hv, rfl⟩ := exists_of_soleNumeral? hn
  refine ⟨v, hv, hw, ofFile_eq_ok_iff.mpr ⟨_, hw, rfl⟩, ?_, rfl⟩
  refine .object (List.nodup_singleton "n") ?_
  intro m hm
  obtain rfl := List.mem_singleton.mp hm
  exact .number hv

/-- A numeral is held if it is read as the number it denotes. -/
theorem held_numeral {k : String} {n : Numeral} {v : Number} {hv : n.number? = .ok v}
    (h : v.decimal = n.decimal) : (Written.object [(k, .number n v hv)]).Held := by
  refine .object ?_
  intro m hm
  obtain rfl := List.mem_singleton.mp hm
  exact .number hv h

/-! ### Before and after an installation -/

/-- **What an installation keeps.**  When a command is put into the settings that a file holds, and
the document in it names each member once, the settings are saved in that file as a document that
denotes, outside the stop entries, what the first one meant.  It denotes what the first one denotes
exactly if the numerals outside the stop entries are held; without doubles they are. -/
theorem install_keeps (hat : files.at? settingsPath = some (.file content))
    (hload : load root files = .ok r) (hw : written? content = some w) (hnamed : w.NamedOnce)
    (hok : (r.install c).1 = .ok true) :
    ∃ files' content' w', (r.install c).2.save files = .ok files' ∧
      files'.at? settingsPath = some (.file content') ∧ written? content' = some w' ∧
      (∃ stop, w'.exact = w.value.exact.withStop stop) ∧
      ((∃ stop, w'.exact = w.exact.withStop stop) ↔ w.HeldOutsideStop) ∧
      (w.value.doubleFree = true → w.HeldOutsideStop) := by
  have hfile : ofFile (settingsPath.under root) content = .ok r := by
    rw [load, hat] at hload
    exact hload
  obtain ⟨w', hw', hexact⟩ := exists_written_install hfile hw hok
  obtain ⟨files', hwrite⟩ :=
    Node.exists_write (by decide) hat (Utf8.encode (r.install c).2.text.toList)
  obtain ⟨k, -, hk⟩ := exists_of_bind hwrite
  refine ⟨files', _, w', by rw [save, hwrite], Node.at?_withFile hk, hw', ⟨_, hexact⟩, ?_, ?_⟩
  · rw [hexact]
    exact Written.withStop_exact_iff hnamed _
  · exact fun hf => (Written.held_of_doubleFree hnamed hf).outsideStop

/-- A fraction that a double holds is kept. -/
theorem install_keeps_fraction :
    let content := Utf8.encode "\x7b\"n\":1.5\x7d".toList
    let files : Node :=
      .directory [(".claude", .directory [("settings.local.json", .file content)])]
    ∃ r w files' content' w', load "/p" files = .ok r ∧ written? content = some w ∧
      (r.install gateCommand).2.save files = .ok files' ∧
      files'.at? settingsPath = some (.file content') ∧ written? content' = some w' ∧
      ∃ stop, w'.exact = w.exact.withStop stop := by
  intro content files
  have hsole : (written? content).bind soleNumeral? = some ("n", ⟨false, ['1'], ['5'], none⟩) := by
    decide +kernel
  obtain ⟨v, hv, hw, hfile, hnamed, hok⟩ :=
    exists_of_numeral (settingsPath.under "/p") gateCommand hsole
  have hload : load "/p" files = .ok ⟨[("n", .number v)]⟩ := hfile
  have hat : files.at? settingsPath = some (.file content) := rfl
  obtain ⟨files', content', w', hsave, hat', hw', -, hiff, -⟩ :=
    install_keeps hat hload hw hnamed hok
  refine ⟨_, _, files', content', w', hload, hw, hsave, hat', hw', hiff.mpr ?_⟩
  have hread : Numeral.number? ⟨false, ['1'], ['5'], none⟩ =
      .ok (.double ⟨false, 3 <<< 1073⟩) := by decide +kernel
  obtain rfl := Except.ok.inj (hv.symm.trans hread)
  exact (held_numeral (by decide +kernel)).outsideStop

/-- A whole number beyond its word is not: 2⁶⁴ is written again as a double, the decimal of which is
another number. -/
theorem install_changes_number :
    let content := Utf8.encode "\x7b\"n\":18446744073709551616\x7d".toList
    ∃ r w w', ofFile "settings.local.json" content = .ok r ∧ written? content = some w ∧
      w.NamedOnce ∧ (r.install "a").1 = .ok true ∧
      (r.install "a").2.text = "\x7b
  \"n\": 1.8446744073709552e+19,
  \"hooks\": \x7b
    \"Stop\": [
      \x7b
        \"hooks\": [
          \x7b
            \"type\": \"command\",
            \"command\": \"a\"
          \x7d
        ]
      \x7d
    ]
  \x7d
\x7d
" ∧
      written? (Utf8.encode (r.install "a").2.text.toList) = some w' ∧
      ¬ ∃ stop, w'.exact = w.exact.withStop stop := by
  intro content
  have hsole : (written? content).bind soleNumeral? =
      some ("n", ⟨false, "18446744073709551616".toList, [], none⟩) := by decide +kernel
  obtain ⟨v, hv, hw, hfile, hnamed, hok⟩ := exists_of_numeral "settings.local.json" "a" hsole
  obtain ⟨w', hw', hexact⟩ := exists_written_install hfile hw hok
  have hread : Numeral.number? ⟨false, "18446744073709551616".toList, [], none⟩ =
      .ok (.double ⟨false, 1 <<< 1138⟩) := by decide +kernel
  obtain rfl := Except.ok.inj (hv.symm.trans hread)
  refine ⟨_, _, w', hfile, hw, hnamed, hok, by decide +kernel, hw', ?_⟩
  rw [hexact, Written.withStop_exact_iff hnamed]
  intro hheld
  have heq := Written.Held.number_iff.mp (hheld.members _ (List.mem_singleton.mpr rfl)
    (by decide : "n" ≠ "hooks"))
  exact absurd heq (by decide +kernel)

end Registry

end LintGate
