import LintGate.Journal.Filter
import LintGate.Text.Blank
import LintGate.Text.Case
import LintGate.Text.Lines

/-!
# Journal — directives

One reader of filters (`Directive.reader`): it reads lists of directives for levels and targets, and
none for spans or fields.  A directive sets a limit for all notes, or for the targets that begin
with its own; of those that apply to a target the longest decides, and of two for one target the
later (`Directive.limitFor`).  A target to which none applies is silent.
-/

namespace LintGate

open Text

/-- A limit for the notes of some targets. -/
structure Directive where
  /-- What the targets begin with; `none` applies to all and gives way to any other. -/
  target : Option (List Char)
  /-- The last level that is shown, if any is. -/
  limit : Option Level
  deriving DecidableEq, Repr

namespace Level

/-- The limit of a rank: nothing is shown at zero. -/
def ofRank? : Nat → Option (Option Level)
  | 0 => some none
  | 1 => some (some .error)
  | 2 => some (some .warn)
  | 3 => some (some .info)
  | 4 => some (some .debug)
  | 5 => some (some .trace)
  | _ => none

/-- The rank a word of digits stands for; one plus sign may stand before them. -/
def rankOf? (word : List Char) : Option Nat :=
  let digits := if word.head? = some '+' then word.tail else word
  if !digits.isEmpty && digits.all Char.isDigit then
    some (digits.foldl (fun n c => 10 * n + (c.toNat - '0'.toNat)) 0)
  else none

/-- The limit a word stands for: a rank, or the name of a level in any case, or `off`. -/
def limitOf? (word : List Char) : Option (Option Level) :=
  match rankOf? word with
  | some n => ofRank? n
  | none   =>
    match Text.lower (String.ofList word) with
    | "off"   => some none
    | "error" => some (some .error)
    | "warn"  => some (some .warn)
    | "info"  => some (some .info)
    | "debug" => some (some .debug)
    | "trace" => some (some .trace)
    | _       => none

end Level

namespace Directive

/-- A character an item may begin with. -/
def opens (c : Char) : Bool :=
  c.isAlphanum || c == '-' || c == ':' || c == '_' || (c.toNat ≥ 0x80 && !isSpace c)

/-- The directive an item stands for: a limit, a target whose notes are all shown, or a target and
its limit, which may be left empty.  White space before an item is passed over to see how it begins
and belongs to it otherwise. -/
def ofItem? (item : List Char) : Option Directive :=
  match item.dropWhile isSpace with
  | []     => none
  | c :: _ =>
    if !opens c then none
    else
      match split '=' item with
      | [word] =>
        match Level.limitOf? word with
        | some l => some ⟨none, l⟩
        | none   => some ⟨some word, some .trace⟩
      | [target, word] =>
        if item.head? != some c then none
        else if word.isEmpty then some ⟨some target, some .trace⟩
        else (Level.limitOf? word).map fun l => ⟨some target, l⟩
      | _ => none

/-- The directive applies to a target. -/
def applies (target : List Char) (d : Directive) : Bool :=
  match d.target with
  | some t => t.isPrefixOf target
  | none   => true

/-- How closely it says which targets it is for. -/
def weight (d : Directive) : Nat :=
  match d.target with
  | some t => t.length + 1
  | none   => 0

/-- The limit for a target. -/
def limitFor (ds : List Directive) (target : List Char) : Option Level :=
  let better (best : Option Directive) (d : Directive) : Option Directive :=
    if d.applies target && (best.all fun b => b.weight ≤ d.weight) then some d else best
  (ds.foldl better none).bind limit

/-- The filter that directives make.  Without any, errors are shown. -/
def filter (ds : List Directive) : Filter := fun n =>
  match limitFor (if ds.isEmpty then [⟨none, some .error⟩] else ds) n.target.toList with
  | some l => n.level.rank ≤ l.rank
  | none   => false

/-- The items of a text are what stands between its commas, if it is not empty. -/
def items (s : List Char) : List (List Char) :=
  (split ',' s).filter fun i => !i.isEmpty

/-- Reads the directives of a text. -/
def reader : Filter.Reader where
  ofValue? bs := (Utf8.strict? bs).bind fun s => ((items s).mapM ofItem?).map filter
  ofText s    := filter ((items s.toList).filterMap ofItem?)

end Directive

end LintGate
