import LintGate.CommandLine.Request
import LintGate.Proofs.CommandLine.Layers
import LintGate.Proofs.Json.Sound

/-!
# Command line — what can be read

A command line is read in one of three ways, by the command that its first word names, or by that it
names none (`Request.Reads`); a call for help is never read as a request.  In each of them the
variables have to hold texts as far as they are looked at (`Request.parse_eq_ok_iff`).
-/

namespace LintGate.CommandLine.Request

variable {env : Environment} {ws : List Word} {r : Request} {s : Scope} {w : Word}

/-- The words are read as a request. -/
inductive Reads (env : Environment) (ws : List Word) : Request → Prop where
  | unnamed {g : Given} {a : RunArgs} (hfirst : ws.head?.bind scopeOf? = none)
      (hgiven : Given.ofWords .top ws = .ok g) (hargs : RunArgs.ofLayers env g = .ok a) :
      Reads env ws ⟨a, none⟩
  | run {g : Given} {a top : RunArgs} (hfirst : ws.head?.bind scopeOf? = some .run)
      (hgiven : Given.ofWords .run ws.tail = .ok g) (hargs : RunArgs.ofLayers env g = .ok a)
      (htop : RunArgs.ofLayers env {} = .ok top) : Reads env ws ⟨top, some (.run a)⟩
  | hook {action : HookAction} {top : RunArgs} (hfirst : ws.head?.bind scopeOf? = some .hook)
      (haction : HookWords.action ws.tail = .ok action)
      (htop : RunArgs.ofLayers env {} = .ok top) : Reads env ws ⟨top, some (.hook action)⟩

/-- What a line is parsed as it reads as. -/
theorem Reads.of_parse (h : parse env ws = .ok r) : Reads env ws r := by
  rw [parse] at h
  split at h
  next hfirst =>
    obtain ⟨g, hgiven, h⟩ := Json.exists_of_bind h
    obtain ⟨a, hargs, h⟩ := Json.exists_of_bind h
    cases h
    exact .unnamed hfirst hgiven hargs
  next hfirst =>
    obtain ⟨g, hgiven, h⟩ := Json.exists_of_bind h
    obtain ⟨a, hargs, h⟩ := Json.exists_of_bind h
    obtain ⟨top, htop, h⟩ := Json.exists_of_bind h
    cases h
    exact .run hfirst hgiven hargs htop
  next hfirst =>
    obtain ⟨action, haction, h⟩ := Json.exists_of_bind h
    obtain ⟨top, htop, h⟩ := Json.exists_of_bind h
    cases h
    exact .hook hfirst haction htop
  · cases h

/-- A line is parsed as a request exactly if it reads as that. -/
theorem parse_eq_ok_iff : parse env ws = .ok r ↔ Reads env ws r := by
  refine ⟨.of_parse, ?_⟩
  intro h
  rw [parse]
  cases h with
  | unnamed hfirst hgiven hargs => simp only [hfirst, hgiven, hargs, bind, Except.bind]
  | run hfirst hgiven hargs htop => simp only [hfirst, hgiven, hargs, htop, bind, Except.bind]
  | hook hfirst haction htop => simp only [hfirst, haction, htop, bind, Except.bind]

/-! ### Words that name a command -/

theorem scopeOf?_run : scopeOf? (Word.spelling "run") = some .run := by decide

theorem shape_of_scopeOf? (h : scopeOf? w = some s) : w.shape = .plain := by
  rw [scopeOf?] at h
  split at h
  next ht => rw [Word.text?_eq_some_iff.mp ht]; rfl
  next ht => rw [Word.text?_eq_some_iff.mp ht]; rfl
  next ht => rw [Word.text?_eq_some_iff.mp ht]; rfl
  · cases h

/-- The words of a run do not begin with one that names a command. -/
theorem scopeOf?_of_ofWords {g : Given} (h : Given.ofWords s ws = .ok g) :
    ws.head?.bind scopeOf? = none := by
  cases ws with
  | nil => rfl
  | cons w ws =>
      cases hw : scopeOf? w with
      | none => exact hw
      | some c =>
          rw [Given.ofWords, Reading.words, shape_of_scopeOf? hw] at h
          cases h

end LintGate.CommandLine.Request
