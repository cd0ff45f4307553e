import DeclLayer.Proofs.Layer.Build
import DeclLayer.Proofs.Store.Lawful
import Mathlib.Logic.Function.Iterate

/-!
# Runs on the result of a run

A run that writes its file leaves a store in which the file is what a run gives (`Layer.Settled`),
because the layer does not depend on the output file (`Layer.ofStore_congr`) and the file reads back
as it was written (`Layer.settled_of_generate`). On such a store a run does nothing
(`Layer.Settled.generate_eq`), and so does any number of runs (`Layer.Settled.iterate`).

What a run writes (`Layer.writes`) is what a journal lists. It is the file of the layer unless the
run fails or the file is up to date (`Layer.writes_eq`).
-/

namespace DeclLayer.Layer

variable {σ : Type} [Store σ] {settings : Settings} {s s' : σ} {output : Output}

/-! ## A run -/

/-- The ways in which a run ends: it fails to give a text, its file is up to date, or it asks for
its file to be written, which succeeds or fails. -/
theorem generate_cases {result : Except LayerError Output}
    (h : generate settings s = (result, s')) :
    (∃ e, build settings s = .error e ∧ result = .error e ∧ s' = s) ∨
    (∃ output, build settings s = .ok output ∧ output.isUpToDate = true ∧
      result = .ok output ∧ s' = s) ∨
    (∃ output, build settings s = .ok output ∧ output.isUpToDate = false ∧
      result = .ok output ∧ Store.write s settings.output output.text = (.ok (), s')) ∨
    (∃ output reason, build settings s = .ok output ∧ output.isUpToDate = false ∧
      result = .error (.file .write settings.output reason) ∧
      Store.write s settings.output output.text = (.error reason, s')) := by
  rw [generate] at h
  cases hbuild : build settings s with
  | error e =>
    rw [hbuild] at h
    cases h
    exact .inl ⟨e, rfl, rfl, rfl⟩
  | ok output =>
    have hpath : output.path = settings.output := by
      obtain ⟨_, _, -, -, rfl⟩ := build_ok.1 hbuild
      rfl
    simp only [hbuild, Store.save, hpath] at h
    cases hdate : output.isUpToDate with
    | true =>
      rw [if_pos hdate] at h
      cases h
      exact .inr (.inl ⟨output, rfl, hdate, rfl, rfl⟩)
    | false =>
      rw [hdate, if_neg Bool.false_ne_true] at h
      rcases hwrite : Store.write s settings.output output.text with ⟨⟨reason⟩ | ⟨⟩, after⟩
      · rw [hwrite] at h
        cases h
        exact .inr (.inr (.inr ⟨output, reason, rfl, hdate, rfl, hwrite⟩))
      · rw [hwrite] at h
        cases h
        exact .inr (.inr (.inl ⟨output, rfl, hdate, rfl, hwrite⟩))

/-- A run that succeeds has built a text, and its file was up to date or has been written. -/
theorem generate_ok (h : generate settings s = (.ok output, s')) :
    build settings s = .ok output ∧
      (output.isUpToDate = true ∧ s' = s ∨
        Store.write s settings.output output.text = (.ok (), s')) := by
  rcases generate_cases h with ⟨_, -, ⟨⟩, -⟩ | ⟨_, hbuild, hdate, ⟨⟩, hs⟩ |
    ⟨_, hbuild, -, ⟨⟩, hwrite⟩ | ⟨_, _, -, -, ⟨⟩, -⟩
  · exact ⟨hbuild, .inl ⟨hdate, hs⟩⟩
  · exact ⟨hbuild, .inr hwrite⟩

/-- The writes that a run asks for. -/
def writes (settings : Settings) (s : σ) : List (Path × String) :=
  (generate settings (⟨s, []⟩ : Journal σ)).2.writes

/-- A run on a journal gives what it gives on the store. What it lists is the file, unless there is
no text or the file is up to date. -/
theorem generate_journal (settings : Settings) (j : Journal σ) :
    generate settings j = ((generate settings j.inner).1, ⟨(generate settings j.inner).2,
      j.writes ++ match build settings j.inner with
        | .ok output => if output.isUpToDate then [] else [(output.path, output.text)]
        | .error _ => []⟩) := by
  have hbuild : build settings j = build settings j.inner := rfl
  rw [generate, generate, hbuild]
  cases build settings j.inner with
  | error e => simp
  | ok output =>
    cases hdate : output.isUpToDate with
    | true => simp [hdate]
    | false => simp [hdate, Journal.save_eq]

/-- What a run writes. -/
theorem writes_eq (settings : Settings) (s : σ) :
    writes settings s = match build settings s with
      | .ok output => if output.isUpToDate then [] else [(output.path, output.text)]
      | .error _ => [] := by
  rw [writes, generate_journal, List.nil_append]

/-- A run that gives a text writes nothing exactly if its file is up to date. -/
theorem writes_eq_nil_iff (h : build settings s = .ok output) :
    writes settings s = [] ↔ output.isUpToDate = true := by
  rw [writes_eq, h]
  cases hdate : output.isUpToDate <;> simp [hdate]

/-! ## What a run depends on -/

/-- The layer of a store depends on its declaration file alone. -/
theorem ofStore_congr {τ : Type} [Store τ] {t : τ}
    (h : Store.read s settings.declarationFile = Store.read t settings.declarationFile) :
    ofStore settings s = ofStore settings t := by
  have hfile : Store.readFile s settings.declarationFile =
      Store.readFile t settings.declarationFile := by
    rw [Store.readFile, h, Store.readFile]
  rw [ofStore, ofStore, Store.document, Store.document, Store.document?, Store.document?, hfile]

/-- If the output file can be read, its text has no part in the text of a run. -/
theorem build_content {previous : Option String}
    (h : Store.readFile s settings.output = .ok previous) :
    (build settings s).map (fun output => (output.text, output.unresolved)) =
      (ofStore settings s).map fun layer => (layer.fileText settings, layer.unresolved) := by
  rw [build_eq, h]
  cases ofStore settings s with
  | error e => rfl
  | ok layer => simp only [Except.map, bind, Except.bind, pure, Except.pure]

/-! ## Settled stores -/

/-- The output file holds what a run gives. -/
def Settled (settings : Settings) (s : σ) (output : Output) : Prop :=
  build settings s = .ok output ∧ output.isUpToDate = true

namespace Settled

/-- A run on a settled store leaves it as it is. -/
theorem generate_eq (h : Settled settings s output) : generate settings s = (.ok output, s) := by
  rw [generate, h.1]
  exact if_pos h.2

/-- A settled run writes nothing. -/
theorem writes_eq_nil (h : Settled settings s output) : writes settings s = [] :=
  (writes_eq_nil_iff h.1).2 h.2

/-- Any number of runs leaves a settled store as it is. -/
theorem iterate (h : Settled settings s output) (n : Nat) :
    (fun t => (generate settings t).2)^[n] s = s := by
  induction n with
  | zero => rfl
  | succ n ih => rw [Function.iterate_succ_apply, h.generate_eq, ih]

end Settled

/-- A run that succeeds leaves a settled store, if its file is not the declaration file. -/
theorem settled_of_generate [LawfulStore σ]
    (hpath : settings.output.same settings.declarationFile = false)
    (h : generate settings s = (.ok output, s')) :
    Settled settings s' { output with previous := some output.text } := by
  obtain ⟨hbuild, ⟨hdate, rfl⟩ | hwrite⟩ := generate_ok h
  · have hprevious : output.previous = some output.text := beq_iff_eq.1 hdate
    rw [← hprevious]
    exact ⟨hbuild, hdate⟩
  · refine ⟨?_, beq_self_eq_true _⟩
    obtain ⟨layer, previous, hlayer, -, rfl⟩ := build_ok.1 hbuild
    refine build_ok.2 ⟨layer, some (layer.fileText settings), ?_, ?_, by dsimp only⟩
    · have hread := LawfulStore.read_write hwrite settings.declarationFile
      rw [hpath, if_neg Bool.false_ne_true] at hread
      rw [ofStore_congr hread, hlayer]
    · have hread := LawfulStore.read_write hwrite settings.output
      rw [if_pos (Path.same_refl _)] at hread
      rw [Store.readFile, hread]

/-! ## Files in memory -/

/-- With files in memory and an output file that is not the declaration file, the text of a run does
not depend on the output file. A run that succeeds leaves a store on which further runs give the
same text and write nothing, and a run writes its file exactly if it is not up to date. -/
theorem generate_idempotent {settings : Settings}
    (hpath : settings.output.same settings.declarationFile = false) (s : MemoryStore) :
    (∀ t : MemoryStore,
      (∀ path, settings.output.same path = false → t.get? path = s.get? path) →
      (build settings t).map (fun output => (output.text, output.unresolved)) =
        (build settings s).map fun output => (output.text, output.unresolved)) ∧
    (∀ output s', generate settings s = (.ok output, s') →
      (∃ later, build settings s' = .ok later ∧ later.isUpToDate = true ∧
        generate settings s' = (.ok later, s') ∧
        later.text = output.text ∧ later.unresolved = output.unresolved) ∧
      writes settings s' = [] ∧ ∀ n, (fun t => (generate settings t).2)^[n] s' = s') ∧
    ∀ output, build settings s = .ok output →
      (output.isUpToDate = true ↔ writes settings s = []) := by
  refine ⟨fun t ht => ?_, fun output s' h => ?_, fun output h => (writes_eq_nil_iff h).symm⟩
  · have hread : Store.read t settings.declarationFile = Store.read s settings.declarationFile :=
      congrArg Except.ok (ht settings.declarationFile hpath)
    rw [build_content rfl, build_content rfl, ofStore_congr hread]
  · have hsettled := settled_of_generate hpath h
    exact ⟨⟨_, hsettled.1, hsettled.2, hsettled.generate_eq, rfl, rfl⟩, hsettled.writes_eq_nil,
      hsettled.iterate⟩

/-- A store with a small declaration file. -/
def smallStore : MemoryStore :=
  .ofList [(⟨"lib.d.ts"⟩, "declare namespace ts { interface Node {} }")]

/-- The settings for the small declaration file. -/
def smallSettings : Settings :=
  { Settings.standard with declarationFile := ⟨"lib.d.ts"⟩, policy := .empty }

/-- The first run on the small declaration file writes a file, and further runs do not. -/
theorem generate_idempotent_small :
    ∃ output s', generate smallSettings smallStore = (.ok output, s') ∧
      writes smallSettings smallStore = [(output.path, output.text)] ∧
      writes smallSettings s' = [] ∧
      ∀ n, (fun t => (generate smallSettings t).2)^[n] s' = s' := by
  have hpath : smallSettings.output.same smallSettings.declarationFile = false := by decide +kernel
  obtain ⟨output, hbuild⟩ : ∃ output, build smallSettings smallStore = .ok output :=
    exists_ok (by decide +kernel)
  have hdate : output.isUpToDate = false := by
    obtain ⟨_, previous, -, hprevious, rfl⟩ := build_ok.1 hbuild
    have hnone : smallStore.get? smallSettings.output = none := by decide +kernel
    cases hnone.symm.trans (Except.ok.inj hprevious)
    rfl
  have hgenerate : generate smallSettings smallStore =
      (.ok output, smallStore.insert output.path output.text) := by
    rw [generate, hbuild]
    exact if_neg (Bool.eq_false_iff.1 hdate)
  obtain ⟨-, hlater, hiterate⟩ := (generate_idempotent hpath smallStore).2.1 _ _ hgenerate
  refine ⟨output, _, hgenerate, ?_, hlater, hiterate⟩
  rw [writes_eq, hbuild]
  exact if_neg (Bool.eq_false_iff.1 hdate)

end DeclLayer.Layer
