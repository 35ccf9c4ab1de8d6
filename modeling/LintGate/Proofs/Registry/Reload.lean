import LintGate.Proofs.Json.RoundTrip
import LintGate.Proofs.Registry.Steps
import LintGate.Proofs.Text.Utf8
import LintGate.Store

/-!
# The registry — settings written and read again

Settings that were read are sound, and installing and removing keep them so: the stop entries they
put in nest far less deep than a document may (`Reachable.sound`).  So what is written is read again
as it was, and writing it once more changes no file.
-/

namespace LintGate

open Json Text

/-! ### Writing a file that is there -/

namespace Node

/-- What stands at a longer path stands in a directory. -/
theorem exists_of_at?_cons {s : String} {p : Path} {n m : Node} (h : n.at? (s :: p) = some m) :
    ∃ es k, n = .directory es ∧ Members.get? s es = some k ∧ k.at? p = some m := by
  cases n with
  | file c => cases h
  | directory es =>
      obtain ⟨k, hk, hm⟩ := Option.bind_eq_some_iff.mp h
      exact ⟨es, k, rfl, hk, hm⟩

/-- No directory has to be made for a file that is there. -/
theorem withDirectory_of_file {content : Bytes} {p : Path} (hp : p ≠ []) {n : Node}
    (h : n.at? p = some (.file content)) : withDirectory p.dropLast (some n) = .ok n := by
  induction p generalizing n with
  | nil => exact absurd rfl hp
  | cons s p ih =>
      obtain ⟨es, k, rfl, hk, hfile⟩ := exists_of_at?_cons h
      cases p with
      | nil => rfl
      | cons s' p =>
          rw [List.dropLast_cons_cons, withDirectory, hk, ih (List.cons_ne_nil _ _) hfile,
            Except.map, Members.put_of_get? hk]

/-- A file that is there takes any content, and with its own the tree stays as it is. -/
theorem withFile_of_file {content : Bytes} {p : Path} {n : Node}
    (h : n.at? p = some (.file content)) :
    withFile content p (some n) = .ok n ∧ ∀ new, ∃ m, withFile new p (some n) = .ok m := by
  induction p generalizing n with
  | nil =>
      obtain rfl := Option.some.inj h
      exact ⟨rfl, fun new => ⟨.file new, rfl⟩⟩
  | cons s p ih =>
      obtain ⟨es, k, rfl, hk, hfile⟩ := exists_of_at?_cons h
      obtain ⟨hsame, hnew⟩ := ih hfile
      constructor
      · rw [withFile, hk, hsame, Except.map, Members.put_of_get? hk]
      · intro new
        obtain ⟨m, hm⟩ := hnew new
        exact ⟨_, by rw [withFile, hk, hm, Except.map]⟩

/-- A file that is there can be written again. -/
theorem exists_write {content : Bytes} {p : Path} {n : Node} (hp : p ≠ [])
    (h : n.at? p = some (.file content)) (new : Bytes) : ∃ m, n.write p new = .ok m := by
  obtain ⟨m, hm⟩ := (withFile_of_file h).2 new
  exact ⟨m, by rw [write, withDirectory_of_file hp h]; exact hm⟩

/-- Writing the same once more changes nothing. -/
theorem write_write {content : Bytes} {p : Path} {n m : Node} (hp : p ≠ [])
    (h : n.write p content = .ok m) : m.write p content = .ok m := by
  obtain ⟨k, -, hk⟩ := exists_of_bind h
  have hfile := at?_withFile hk
  rw [write, withDirectory_of_file hp hfile]
  exact (withFile_of_file hfile).1

end Node

namespace Registry

variable {r : Registry}

/-! ### Sound settings -/

/-- A new entry is sound. -/
theorem sound_entryFor (d : Nat) (c : String) : (entryFor c).Sound (d + 3) := by
  have hhook : (Value.object [("type", .string "command"), ("command", .string c)]).Sound
      (d + 1) := by
    refine .object (by decide : ["type", "command"].Nodup) ?_
    intro m hm
    rcases List.mem_pair.mp hm with rfl | rfl
    · exact .string _
    · exact .string _
  refine .object (by decide : ["hooks"].Nodup) ?_
  intro m hm
  obtain rfl := List.mem_singleton.mp hm
  exact .array fun v hv => List.mem_singleton.mp hv ▸ hhook

/-- A new entry takes three more containers, inside the three that the root, the hooks and their
stop entries are. -/
theorem sound_install {d : Nat} (h : (Value.object r.root).Sound (d + 6)) (c : String) :
    (Value.object (r.install c).2.root).Sound (d + 6) :=
  inherited_install Value.inherited_sound h (sound_entryFor d c)

/-! ### Settings the tool can come to -/

/-- Settings that come from nothing, or from what a file holds, by installing and removing. -/
inductive Reachable : Registry → Prop where
  | empty : Reachable .empty
  | loaded {path : String} {content : Bytes} {r : Registry} (h : ofFile path content = .ok r) :
      Reachable r
  | install {r : Registry} (h : Reachable r) (c : String) : Reachable (r.install c).2
  | uninstall {r : Registry} (h : Reachable r) (c : String) : Reachable (r.uninstall c).2

/-- Settings read from a file are sound. -/
theorem sound_of_ofFile {path : String} {content : Bytes} (h : ofFile path content = .ok r) :
    (Value.object r.root).Sound depthLimit := by
  rw [ofFile] at h
  split at h
  · cases h
  · split at h
    · cases h
    next root hroot =>
      cases h
      exact sound_of_parse hroot
    · cases h

/-- Settings the tool comes to are sound. -/
theorem Reachable.sound (h : Reachable r) : (Value.object r.root).Sound depthLimit := by
  induction h with
  | empty => exact .empty
  | loaded h => exact sound_of_ofFile h
  | install _ c ih => exact sound_install ih c
  | uninstall _ c ih => exact inherited_uninstall Value.inherited_sound ih c

/-- Sound settings without doubles are found again in their text. -/
theorem ofFile_text (h : (Value.object r.root).Sound depthLimit)
    (hf : (Value.object r.root).doubleFree = true) (path : String) :
    ofFile path (Utf8.encode r.text.toList) = .ok r := by
  have hstrict := Utf8.strict?_eq_some_iff.mpr (rfl : Utf8.encode r.text.toList = _)
  have hgap : Gap "\n".toList := gap_cons (by decide) gap_nil
  have htext : String.ofList r.text.toList =
      String.ofList ((Value.object r.root).chars .indented 0 ++ "\n".toList) := by
    rw [text, Value.indented, String.toList_append, String.toList_ofList]
  rw [ofFile, hstrict]
  simp only [htext, parse_chars spaced_indented h hf hgap]

/-- **Settings are read again as they were written.**  Whatever the tool has come to nests no
deeper than a document may and names each member once; without doubles, any path it is written to
holds the same settings again, members in their order, and writing them once more changes no
file. -/
theorem load_save (h : Reachable r) (hf : (Value.object r.root).doubleFree = true) :
    (Value.object r.root).Sound depthLimit ∧
    (∀ path, ofFile path (Utf8.encode r.text.toList) = .ok r) ∧
    ∀ (root : String) (files files' : Node), r.save files = .ok files' →
      load root files' = .ok r ∧ r.save files' = .ok files' := by
  refine ⟨h.sound, ofFile_text h.sound hf, ?_⟩
  intro root files files' hsave
  rw [save] at hsave
  split at hsave
  next n hwrite =>
    cases hsave
    have hat : files'.at? settingsPath = some (.file (Utf8.encode r.text.toList)) := by
      obtain ⟨k, -, hk⟩ := exists_of_bind hwrite
      exact Node.at?_withFile hk
    constructor
    · rw [load, hat]
      exact ofFile_text h.sound hf _
    · rw [save, Node.write_write (by decide) hwrite]
  · cases hsave

/-- Settings from a file with the greatest and the least whole number, and a stop hook put in. -/
theorem load_save_word_bounds :
    let read : Registry := ⟨[("é\n", .array [.number (.int 0xFFFFFFFFFFFFFFFF),
      .number (.int (-0x8000000000000000))]), ("hooks", .object [])]⟩
    let r := (read.install "a \"b\"").2
    ∀ path, ofFile path (Utf8.encode r.text.toList) = .ok r := by
  intro read r path
  have hsound : (Value.object read.root).Sound depthLimit := by
    refine .object (d := 126) (by decide : ["é\n", "hooks"].Nodup) ?_
    intro m hm
    rcases List.mem_pair.mp hm with rfl | rfl
    · refine .array (d := 125) ?_
      intro v hv
      rcases List.mem_pair.mp hv with rfl | rfl
      · exact .int (by rw [FitsWord]; decide)
      · exact .int (by rw [FitsWord]; decide)
    · exact .empty
  have hfile := ofFile_text hsound rfl path
  exact (load_save ((Reachable.loaded hfile).install _) rfl).2.1 path

end Registry

end LintGate
