import LintGate.Proofs.CommandLine.Request
import LintGate.Proofs.RunContract

/-!
# Command line — the default command

A command line that names no command asks for a run.  The words of a run are read alike with the
command named and without: only a page that they ask for is another (`Given.alike_ofWords`).  A word
that names a command has no meaning among them, so a command line that names none can be read
exactly if it can be read behind the word `run`, and both are answered alike
(`Request.parse_run_iff`).
-/

namespace LintGate.CommandLine

open Text

/-! ### Readings that come to the same -/

/-- Two readings come to the same, but for the command that a page is for. -/
inductive ReadAlike {α : Type} : Except Halt α → Except Halt α → Prop where
  | same (x : Except Halt α) : ReadAlike x x
  | help (s s' : Scope) : ReadAlike (.error (.page (.help s))) (.error (.page (.help s')))
  | version (s s' : Scope) : ReadAlike (.error (.page (.version s))) (.error (.page (.version s')))

namespace ReadAlike

variable {α β : Type} {x y : Except Halt α}

/-- Reading on alike from alike beginnings is alike. -/
theorem bind {f g : α → Except Halt β} (h : ReadAlike x y) (hfg : ∀ a, ReadAlike (f a) (g a)) :
    ReadAlike (x >>= f) (y >>= g) := by
  cases h with
  | same =>
      cases x with
      | error e => exact .same _
      | ok a => exact hfg a
  | help s s' => exact .help s s'
  | version s s' => exact .version s s'

/-- Of two alike readings one succeeds exactly if the other does, and with the same. -/
theorem eq_ok_iff (h : ReadAlike x y) {a : α} : x = .ok a ↔ y = .ok a := by
  cases h with
  | same => exact Iff.rfl
  | help => simp
  | version => simp

end ReadAlike

variable {s s' : Scope}

theorem Given.alike_turnOn (g : Given) (sw : Switch) :
    ReadAlike (g.turnOn s sw) (g.turnOn s' sw) := by
  cases sw with
  | announce => exact .same _
  | verbose => exact .same _
  | help => exact .help s s'
  | version => exact .version s s'

namespace Reading

theorem alike_letters (us : List (Option Char)) (r : Reading) :
    ReadAlike (r.letters s us) (r.letters s' us) := by
  induction us generalizing r with
  | nil => exact .same _
  | cons u us ih =>
      cases u with
      | none => exact .same _
      | some c =>
          rw [letters, letters]
          split
          · exact .same _
          · exact (ReadAlike.same _).bind fun g => (g.alike_turnOn _).bind fun g' => ih _

theorem alike_named (name : Bytes) (value : Option Bytes) (r : Reading) :
    ReadAlike (r.named s name value) (r.named s' name value) := by
  unfold named
  split
  · exact .same _
  · exact .same _
  · exact (ReadAlike.same _).bind fun g => (g.alike_turnOn _).bind fun g' => .same _
  · exact .same _
  · exact .same _

/-- Words are read alike in both scopes. -/
theorem alike_words (ws : List Word) (r : Reading) : ReadAlike (words s ws r) (words s' ws r) := by
  induction ws generalizing r with
  | nil => exact .same _
  | cons w ws ih =>
      rw [words, words]
      split
      · exact .same _
      · exact (alike_named _ _ r).bind fun r' => ih r'
      · exact (alike_letters _ r).bind fun r' => ih r'
      · exact (ReadAlike.same _).bind fun r' => ih r'

end Reading

/-- The words of a run are read alike with its command named and without. -/
theorem Given.alike_ofWords (s s' : Scope) (ws : List Word) :
    ReadAlike (Given.ofWords s ws) (Given.ofWords s' ws) :=
  Reading.alike_words ws {}

namespace Request

/-! ### The two command lines -/

variable {env : Environment} {ws : List Word} {r : Request}

/-- A line without a command is read as the options of a run. -/
theorem parse_unnamed_iff : parse env ws = .ok r ∧ r.command = none ↔
    ∃ g a, Given.ofWords .top ws = .ok g ∧ RunArgs.ofLayers env g = .ok a ∧ r = ⟨a, none⟩ := by
  rw [parse_eq_ok_iff]
  constructor
  · rintro ⟨hreads, hnone⟩
    cases hreads with
    | @unnamed g a _ hgiven hargs => exact ⟨g, a, hgiven, hargs, rfl⟩
    | run => cases hnone
    | hook => cases hnone
  · rintro ⟨g, a, hgiven, hargs, rfl⟩
    exact ⟨.unnamed (scopeOf?_of_ofWords hgiven) hgiven hargs, rfl⟩

/-- A line behind `run` is read as the options of a run, with nothing given in front. -/
theorem parse_named_iff : parse env (Word.spelling "run" :: ws) = .ok r ↔
    ∃ g a top, Given.ofWords .run ws = .ok g ∧ RunArgs.ofLayers env g = .ok a ∧
      RunArgs.ofLayers env {} = .ok top ∧ r = ⟨top, some (.run a)⟩ := by
  have hrun : (Word.spelling "run" :: ws).head?.bind scopeOf? = some .run := scopeOf?_run
  rw [parse_eq_ok_iff]
  constructor
  · intro hreads
    cases hreads with
    | unnamed hfirst => rw [hrun] at hfirst; cases hfirst
    | @run g a top _ hgiven hargs htop => exact ⟨g, a, top, hgiven, hargs, htop, rfl⟩
    | hook hfirst => rw [hrun] at hfirst; cases hfirst
  · rintro ⟨g, a, top, hgiven, hargs, htop, rfl⟩
    exact .run hrun hgiven hargs htop

/-- **The run is the default command.**  Where the variables hold texts, a command line is read as
one that names no command exactly if it can be read behind the word `run`; and then both ask for the
same run, with the same options, and are answered alike in every project. -/
theorem parse_run_iff (h : env.HoldsTexts) (ws : List Word) :
    ((∃ r, parse env ws = .ok r ∧ r.command = none) ↔
      ∃ r, parse env (Word.spelling "run" :: ws) = .ok r) ∧
    ∀ r r', parse env ws = .ok r → r.command = none →
      parse env (Word.spelling "run" :: ws) = .ok r' →
      ∃ a, r.runArgs? = some a ∧ r'.runArgs? = some a ∧
        r'.runArgs?.map RunArgs.options = r.runArgs?.map RunArgs.options ∧
        ∀ stamp w reader, Session.step stamp env (Word.spelling "run" :: ws) w reader =
          Session.step stamp env ws w reader := by
  -- which command the words belong to shows in pages alone
  have hsame (g : Given) : Given.ofWords .top ws = .ok g ↔ Given.ofWords .run ws = .ok g :=
    (Given.alike_ofWords .top .run ws).eq_ok_iff
  refine ⟨⟨?_, ?_⟩, ?_⟩
  · rintro ⟨r, hr⟩
    obtain ⟨g, a, hg, ha, -⟩ := parse_unnamed_iff.mp hr
    -- behind the word `run` the variables are looked at once more, with nothing given
    obtain ⟨top, htop⟩ := RunArgs.exists_ofLayers h {}
    exact ⟨_, parse_named_iff.mpr ⟨g, a, top, (hsame g).mp hg, ha, htop, rfl⟩⟩
  · rintro ⟨r, hr⟩
    obtain ⟨g, a, -, hg, ha, -, -⟩ := parse_named_iff.mp hr
    exact ⟨_, parse_unnamed_iff.mpr ⟨g, a, (hsame g).mpr hg, ha, rfl⟩⟩
  · intro r r' hr hnone hr'
    obtain ⟨g, a, hg, ha, rfl⟩ := parse_unnamed_iff.mp ⟨hr, hnone⟩
    obtain ⟨g', a', top, hg', ha', -, rfl⟩ := parse_named_iff.mp hr'
    obtain rfl : g = g' := Except.ok.inj (((hsame g).mp hg).symm.trans hg')
    obtain rfl : a = a' := Except.ok.inj (ha.symm.trans ha')
    refine ⟨a, rfl, rfl, rfl, fun stamp w reader => ?_⟩
    rw [Session.step_run hr rfl, Session.step_run hr' rfl]

/-- Words that would name a command, or ask for help, where they stand for a value and for the words
of the linter. -/
theorem parse_run_iff_spelled_alike :
    let env : Environment := { announce := some (Word.spelling "no") }
    let words := ["--announce-text", "run", "-v", "--", "hook", "--help"].map Word.spelling
    ∃ r r', parse env words = .ok r ∧ parse env (Word.spelling "run" :: words) = .ok r' ∧
      r.runArgs? = some ⟨false, "say", "run", true, ["hook", "--help"]⟩ ∧
      r'.runArgs? = r.runArgs? := by
  intro env words
  have hname : Environment.HoldsText none := nofun
  have htexts : env.HoldsTexts := by
    refine ⟨?_, hname, hname, hname⟩
    rintro v ⟨rfl⟩
    exact ⟨"no", rfl⟩
  let a : RunArgs := ⟨false, "say", "run", true, ["hook", "--help"]⟩
  have hr : parse env words = .ok ⟨a, none⟩ := by decide
  obtain ⟨hiff, hsame⟩ := parse_run_iff htexts words
  obtain ⟨r', hr'⟩ := hiff.mp ⟨_, hr, rfl⟩
  obtain ⟨b, hb, hb', -⟩ := hsame _ r' hr rfl hr'
  exact ⟨_, r', hr, hr', rfl, hb'.trans hb.symm⟩

end Request

end LintGate.CommandLine
