import LintGate.Proofs.Json.Agreement
import LintGate.Proofs.Registry.Kept

/-!
# The project configuration — the switch and the document

The configuration is read straight from its file, and only the switch is looked for.  Read as a
document, as the settings are, the same file says the same of the switch: it has one exactly if the
section of the switch is left out or is an object or an array that has the switch or leaves it out
(`Says`), and no other member makes a difference (`load_says`).
-/

namespace LintGate.AutoBurn

open Json Text

/-! ### What a document says of the switch -/

/-- What the value of the section says of the switch: how it is set, or nothing. -/
inductive Says : Option Value → Option Bool → Prop where
  /-- There is no section. -/
  | absent : Says none none
  /-- The section is an object, with or without the switch. -/
  | object {ss : Members} {b : Option Bool} (h : Members.get? "enabled" ss = b.map .bool) :
      Says (some (.object ss)) b
  /-- The section is an array of the switch alone, or of nothing. -/
  | array (b : Option Bool) : Says (some (.array (b.map .bool).toList)) b

/-- The values of two sections differ at most in members that are not the switch. -/
inductive Alike : Option Value → Option Value → Prop where
  | same (v : Option Value) : Alike v v
  | objects {ss ts : Members} (h : Members.get? "enabled" ss = Members.get? "enabled" ts) :
      Alike (some (.object ss)) (some (.object ts))

/-- An absent section says nothing. -/
theorem says_none_iff {b : Option Bool} : Says none b ↔ b = none := by
  constructor
  · rintro ⟨⟩
    rfl
  · rintro rfl
    exact .absent

/-- An object says what its switch says. -/
theorem says_object_iff {ss : Members} {b : Option Bool} :
    Says (some (.object ss)) b ↔ Members.get? "enabled" ss = b.map .bool := by
  constructor
  · rintro ⟨⟩
    assumption
  · exact .object

/-- An array of at most one item says what that is. -/
theorem says_array_iff {o : Option Value} {b : Option Bool} :
    Says (some (.array o.toList)) b ↔ o = b.map .bool := by
  constructor
  · intro h
    generalize hvs : o.toList = vs at h
    cases h
    cases o <;> cases b <;> simp_all
  · rintro rfl
    exact .array b

/-- An array of more says nothing that counts. -/
theorem not_says_array_of_two (v v' : Value) (vs : List Value) (b : Option Bool) :
    ¬ Says (some (.array (v :: v' :: vs))) b := by
  intro h
  generalize hws : v :: v' :: vs = ws at h
  cases h
  cases b <;> simp at hws

/-- Alike sections say the same. -/
theorem Alike.says_iff {u v : Option Value} (h : Alike u v) (b : Option Bool) :
    Says u b ↔ Says v b := by
  cases h with
  | same => exact Iff.rfl
  | objects h => rw [says_object_iff, says_object_iff, h]

/-! ### The records -/

/-- What the field of the switch makes of a document. -/
def storeSwitch (_ : String) (_ : Option Bool) (w : Written) : Option (Option Bool) :=
  w.bool?.map some

/-- The section that a document makes up. -/
def switchOf? : Written → Option Bool :=
  record.ofWritten storeSwitch

/-- What the field of the section makes of a document. -/
def storeSection (_ : String) (_ : Option Bool) (w : Written) : Option (Option Bool) :=
  (switchOf? w).map some

/-- The configuration that a document makes up. -/
def configuration? : Written → Option Bool :=
  configuration.ofWritten storeSection

/-- The reader of the section follows the generic one. -/
theorem switch_follows : record.read.Follows switchOf? := by
  refine Record.follows fun f hf _ => ?_
  obtain rfl := List.mem_singleton.mp hf
  exact readBool_follows.map some

/-- The reader of the configuration follows the generic one. -/
theorem configuration_follows : configuration.read.Follows configuration? := by
  refine Record.follows fun f hf _ => ?_
  obtain rfl := List.mem_singleton.mp hf
  exact switch_follows.map some

/-- A record of one field that is off if it is not given, from an object that does not repeat it. -/
theorem ofWritten_object {d : Record (Option Bool) Bool} {f : Json.Field (Option Bool)}
    {store : String → Option Bool → Written → Option (Option Bool)} {g : Written → Option Bool}
    (hfields : d.fields = [f]) (hgiven : f.given = Option.isSome) (hempty : d.empty = none)
    (hfinish : ∀ b, d.finish b = .ok (b.getD false))
    (hstore : ∀ b w, store f.name b w = (g w).map some) {ms : List (String × Written)}
    (honce : (Members.keys ms).count f.name ≤ 1) :
    d.ofWritten store (.object ms) =
      (Members.named f.name ms).getLast?.elim (some false) g := by
  rw [Record.ofWritten, hempty, Record.foldlM_keep_of_single hfields hgiven hstore,
    Record.giveAll_named honce]
  cases (Members.named f.name ms).getLast? with
  | none => simp [hfinish, Except.toOption]
  | some w => cases hg : g w <;> simp [hg, hfinish, Except.toOption]

/-! ### The section -/

theorem switchOf?_object {ss : List (String × Written)}
    (honce : (Members.keys ss).count "enabled" ≤ 1) :
    switchOf? (.object ss) = (Members.named "enabled" ss).getLast?.elim (some false) Written.bool? :=
  ofWritten_object (d := record) rfl rfl rfl (fun _ => rfl) (fun _ _ => rfl) honce

theorem switchOf?_array (o : Option Written) :
    switchOf? (.array o.toList) = o.elim (some false) Written.bool? := by
  cases o with
  | none => rfl
  | some w => cases w <;> rfl

/-- An array with more than the switch is no section. -/
theorem switchOf?_array_of_two (w w' : Written) (ws : List Written) :
    switchOf? (.array (w :: w' :: ws)) = none := by
  change (storeSwitch "enabled" none w).bind (fun _ => none) = none
  cases storeSwitch "enabled" none w <;> rfl

/-- The switch is off where there is none. -/
theorem elim_bool?_iff {o : Option Written} {on : Bool} :
    o.elim (some false) Written.bool? = some on ↔
      ∃ b : Option Bool, o.map Written.value = b.map .bool ∧ on = b.getD false := by
  cases o with
  | none =>
      constructor
      · rintro ⟨⟩
        exact ⟨none, rfl, rfl⟩
      · rintro ⟨_ | _, ⟨⟩, rfl⟩
        rfl
  | some w =>
      rw [Option.elim_some, Written.bool?_eq_some_iff]
      constructor
      · intro h
        exact ⟨some on, congrArg some h, rfl⟩
      · rintro ⟨_ | b, h, rfl⟩
        · cases h
        · exact Option.some.inj h

theorem value_array_toList (o : Option Written) :
    (Written.array o.toList).value = .array (o.map Written.value).toList := by
  cases o <;> rfl

theorem switchOf?_array_iff {o : Option Written} {on : Bool} :
    switchOf? (.array o.toList) = some on ↔
      ∃ b, Says (some (Written.array o.toList).value) b ∧ on = b.getD false := by
  rw [switchOf?_array, elim_bool?_iff, value_array_toList]
  simp only [says_array_iff]

/-- The section, where it does not repeat the switch, is what its value says. -/
theorem switchOf?_eq_some_iff {w : Written} {on : Bool}
    (honce : ∀ ss, w = .object ss → (Members.keys ss).count "enabled" ≤ 1) :
    switchOf? w = some on ↔ ∃ b, Says (some w.value) b ∧ on = b.getD false := by
  cases w with
  | array ws =>
      match ws with
      | []            => exact switchOf?_array_iff (o := none)
      | [w]           => exact switchOf?_array_iff (o := some w)
      | w :: w' :: ws =>
          rw [switchOf?_array_of_two, Written.value, Written.itemValues_eq_map]
          constructor
          · rintro ⟨⟩
          · rintro ⟨b, hsays, -⟩
            exact absurd hsays (not_says_array_of_two _ _ _ b)
  | object ss =>
      rw [switchOf?_object (honce ss rfl), elim_bool?_iff, ← Written.get?_value_object,
        Written.value]
      simp only [says_object_iff, Value.get?]
  | _ =>
      constructor
      · rintro ⟨⟩
      · rintro ⟨b, ⟨⟩, -⟩

/-! ### The configuration -/

/-- The configuration is what the section says, where neither is repeated. -/
theorem configuration?_eq_some_iff {ms : List (String × Written)} {on : Bool}
    (hsection : (Members.keys ms).count "autoBurn" ≤ 1)
    (hswitch : ∀ ss, ("autoBurn", .object ss) ∈ ms → (Members.keys ss).count "enabled" ≤ 1) :
    configuration? (.object ms) = some on ↔
      ∃ b, Says ((Written.object ms).value.get? "autoBurn") b ∧ on = b.getD false := by
  have hobject : configuration? (.object ms) =
      (Members.named "autoBurn" ms).getLast?.elim (some false) switchOf? :=
    ofWritten_object (d := configuration) rfl rfl rfl (fun _ => rfl) (fun _ _ => rfl) hsection
  rw [hobject, Written.get?_value_object]
  cases hlast : (Members.named "autoBurn" ms).getLast? with
  | none =>
      simp only [Option.elim_none, Option.map_none, says_none_iff, exists_eq_left,
        Option.getD_none, Option.some.injEq]
      exact eq_comm
  | some w =>
      refine switchOf?_eq_some_iff ?_
      rintro ss rfl
      exact hswitch ss (Members.mem_of_mem_named (List.mem_of_getLast? hlast))

/-! ### The file -/

/-- The configuration's file can be read as settings are, and they are `r`; its document names the
section at most once, and so does the section the switch. -/
def Holds (files : Node) (r : Registry) : Prop :=
  ∃ content path ms, files.at? configPath = some (.file content) ∧
    Registry.ofFile path content = .ok r ∧ Registry.written? content = some (.object ms) ∧
    (Members.keys ms).count "autoBurn" ≤ 1 ∧
    ∀ ss, ("autoBurn", .object ss) ∈ ms → (Members.keys ss).count "enabled" ≤ 1

/-- The configuration that is loaded is made of the document. -/
theorem load_of_written {root : String} {files : Node} {content : Bytes} {w : Written}
    (hat : files.at? configPath = some (.file content))
    (hw : Registry.written? content = some w) : (load root files).1 = configuration? w := by
  obtain ⟨s, hs, hparse⟩ := Option.bind_eq_some_iff.mp hw
  have hread : files.read configPath = .ok content := by rw [Node.read, hat]
  have hfollows := configuration_follows.toOption_parseWith (toOption_eq_some_iff.mp hparse)
  rw [← hfollows]
  simp only [load, hread, hs, parse]
  cases parseWith configuration.read (String.ofList s) <;> rfl

/-- The configuration is loaded, as on or off, exactly if its section says so. -/
theorem Holds.load_iff {files : Node} {r : Registry} (h : Holds files r) (root : String)
    (on : Bool) : (load root files).1 = some on ↔
      ∃ b, Says (Members.get? "autoBurn" r.root) b ∧ on = b.getD false := by
  obtain ⟨content, path, ms, hat, hread, hw, hsection, hswitch⟩ := h
  rw [load_of_written hat hw, configuration?_eq_some_iff hsection hswitch,
    Registry.value_of_ofFile hread hw, Value.get?]

/-- **What is loaded** is what the document says of the switch: there is a configuration exactly if
the section says how the switch is set, or nothing; the switch is on exactly if it is said to be on;
and sections that differ in other members, in whatever documents, are loaded alike. -/
theorem load_says {files : Node} {r : Registry} (h : Holds files r) (root : String) :
    (∀ on, (load root files).1 = some on ↔
      ∃ b, Says (Members.get? "autoBurn" r.root) b ∧ on = b.getD false) ∧
    (enabled (load root files).1 = true ↔
      Says (Members.get? "autoBurn" r.root) (some true)) ∧
    ∀ files' r' root', Holds files' r' →
      Alike (Members.get? "autoBurn" r.root) (Members.get? "autoBurn" r'.root) →
      (load root files).1 = (load root' files').1 := by
  have hload := h.load_iff root
  refine ⟨hload, ?_, ?_⟩
  · have henabled : enabled (load root files).1 = true ↔ (load root files).1 = some true := by
      cases (load root files).1 <;> simp [enabled]
    rw [henabled, hload]
    constructor
    · rintro ⟨_ | b, hsays, hon⟩
      · cases hon
      · obtain rfl : true = b := hon
        exact hsays
    · exact fun hsays => ⟨some true, hsays, rfl⟩
  · intro files' r' root' h' halike
    refine Option.ext fun on => ?_
    rw [hload, h'.load_iff root']
    simp only [halike.says_iff]

/-- The files of a project that holds only this configuration. -/
def holding (text : String) : Node :=
  .directory [("bonzai", .directory [("config.json", .file (Utf8.encode text.toList))])]

theorem holds_of_written {text : String} (ms : List (String × Written))
    (hw : Registry.written? (Utf8.encode text.toList) = some (.object ms))
    (hsection : (Members.keys ms).count "autoBurn" ≤ 1)
    (hswitch : ∀ ss, ("autoBurn", .object ss) ∈ ms → (Members.keys ss).count "enabled" ≤ 1) :
    Holds (holding text) ⟨Members.ofList (Written.memberValues ms)⟩ :=
  ⟨_, "", ms, rfl, Registry.ofFile_eq_ok_iff.mpr ⟨_, hw, by rw [Written.value]⟩, hw, hsection,
    hswitch⟩

/-- The names may be written with escapes, members of the same names may stand at other depths, and
the section is the same whatever stands around it. -/
theorem load_says_on :
    let files := holding "\x7b\"rules\":[\x7b\"enabled\":0\x7d],
      \"\\u0061utoBurn\" : \x7b\"n\":\x7b\"enabled\":false\x7d,\"enabl\\u0065d\":true\x7d\x7d"
    let files' := holding "\x7b\"autoBurn\":\x7b\"enabled\":true\x7d\x7d"
    ∃ r r', Holds files r ∧ Holds files' r' ∧
      Alike (Members.get? "autoBurn" r.root) (Members.get? "autoBurn" r'.root) ∧
      enabled (load "/p" files).1 = true ∧ (load "/p" files).1 = (load "/q" files').1 := by
  intro files files'
  have hfiles : Holds files ⟨_⟩ :=
    holds_of_written [("rules", .array [.object [("enabled",
          .number ⟨false, ['0'], [], none⟩ (.int 0) (by decide +kernel))]]),
        ("autoBurn", .object [("n", .object [("enabled", .bool false)]), ("enabled", .bool true)])]
      (by decide +kernel) (by decide) (by simp [Members.keys])
  have hfiles' : Holds files' ⟨_⟩ :=
    holds_of_written [("autoBurn", .object [("enabled", .bool true)])]
      (by decide +kernel) (by decide) (by simp [Members.keys])
  obtain ⟨-, hon, hloads⟩ := load_says hfiles "/p"
  exact ⟨_, _, hfiles, hfiles', .objects rfl, hon.mpr (.object rfl),
    hloads _ _ "/q" hfiles' (.objects rfl)⟩

end LintGate.AutoBurn
