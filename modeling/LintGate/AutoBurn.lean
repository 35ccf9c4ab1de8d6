import LintGate.Json.Record

/-!
# The project configuration

Of the linter's own configuration file only one switch matters here: whether the linter is to run by
itself after each turn of the agent.  All else in the file belongs to the linter.
-/

namespace LintGate

open Json

namespace AutoBurn

/-- The section of the switch, as a record; it is off unless it is turned on. -/
def record : Record (Option Bool) Bool where
  name := "struct AutoBurnConfig"
  empty := none
  fields :=
    [{ name := "enabled"
       given := Option.isSome
       read := fun _ s => (readBool s).map (Read.map some) }]
  finish := fun d => .ok (d.getD false)
  short := fun _ d => .ok (d.getD false)

/-- The configuration as a record, of which the switch is kept. -/
def configuration : Record (Option Bool) Bool where
  name := "struct BonzaiConfig"
  empty := none
  fields :=
    [{ name := "autoBurn"
       given := Option.isSome
       read := fun _ s => (record.read s).map (Read.map some) }]
  finish := fun d => .ok (d.getD false)
  short := fun _ d => .ok (d.getD false)

/-- The switch of the configuration a text stands for. -/
def parse (text : String) : Except Misread Bool :=
  parseWith configuration.read text

end AutoBurn

end LintGate
