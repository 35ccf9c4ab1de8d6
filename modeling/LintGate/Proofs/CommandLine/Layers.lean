import LintGate.CommandLine.Layers
import LintGate.Proofs.Text.Utf8

/-!
# Command line — variables that hold texts

A variable stands in for an option only if it is valid UTF-8.  Where all of them are, the layers
under the command line never fail (`RunArgs.exists_ofLayers`).
-/

namespace LintGate.CommandLine

open Text

theorem Word.text?_eq_some_iff {w : Word} {t : String} : w.text? = some t ↔ w = spelling t := by
  rw [text?, spelling, Option.map_eq_some_iff]
  constructor
  · rintro ⟨cs, hcs, rfl⟩
    rw [String.toList_ofList]
    exact Utf8.strict?_eq_some_iff.mp hcs
  · rintro rfl
    exact ⟨t.toList, Utf8.strict?_eq_some_iff.mpr rfl, String.ofList_toList⟩

namespace Environment

/-- A variable that is not set, or holds a text. -/
def HoldsText (value : Option Bytes) : Prop :=
  ∀ v, value = some v → ∃ t, v = Word.spelling t

/-- The variables that stand in for options hold texts. -/
structure HoldsTexts (env : Environment) : Prop where
  announce : HoldsText env.announce
  program : HoldsText env.program
  text : HoldsText env.text
  verbose : HoldsText env.verbose

variable {value : Option Bytes}

/-- Where a variable holds a text it can be read. -/
theorem exists_textOf (h : HoldsText value) : ∃ t, textOf value = .ok t := by
  cases value with
  | none => exact ⟨none, rfl⟩
  | some v =>
      obtain ⟨t, ht⟩ := h v rfl
      exact ⟨some t, by rw [textOf, Word.text?_eq_some_iff.mpr ht]⟩

/-- Where a variable holds a text the switch has a state. -/
theorem exists_switch (h : HoldsText value) (given : Bool) : ∃ b, switch given value = .ok b := by
  obtain ⟨t, ht⟩ := exists_textOf h
  cases given with
  | true => exact ⟨true, rfl⟩
  | false => exact ⟨t.any isOn, by rw [switch, if_neg Bool.false_ne_true, ht]; rfl⟩

/-- Where a variable holds a text the setting has a value. -/
theorem exists_setting (h : HoldsText value) (given : Option String) (default : String) :
    ∃ t, setting given value default = .ok t := by
  obtain ⟨t, ht⟩ := exists_textOf h
  cases given with
  | some s => exact ⟨s, rfl⟩
  | none => exact ⟨t.getD default, by rw [setting, ht]; rfl⟩

end Environment

/-- Where the variables hold texts, whatever is given makes up the options of a run. -/
theorem RunArgs.exists_ofLayers {env : Environment} (h : env.HoldsTexts) (g : Given) :
    ∃ a, RunArgs.ofLayers env g = .ok a := by
  obtain ⟨announce, hannounce⟩ := Environment.exists_switch h.announce g.announce
  obtain ⟨program, hprogram⟩ :=
    Environment.exists_setting h.program g.program Announcer.defaultProgram
  obtain ⟨text, htext⟩ := Environment.exists_setting h.text g.text Options.defaultText
  obtain ⟨verbose, hverbose⟩ := Environment.exists_switch h.verbose g.verbose
  refine ⟨⟨announce, program, text, verbose, g.linter⟩, ?_⟩
  rw [ofLayers, hannounce, hprogram, htext, hverbose]
  rfl

end LintGate.CommandLine
