import DeclLayer.Proofs.Layer.Rerun

/-!
# No partial output

A run asks for one write at most, and only after everything that can fail before it has succeeded
(`Layer.generate_cases`). On a store whose writes are all or nothing (`AtomicStore`) a run therefore
is all or nothing as well: one that fails leaves the store as it was, and one that succeeds changes
its file alone (`Layer.generate_atomic`).

`AtomicStore` asks less than `LawfulStore`: a text need only read back under a path that could be
read before, so that stores which refuse to read some paths count too.
-/

namespace DeclLayer

/-! ## Stores with writes that are all or nothing -/

/-- A store in which a write puts the text under exactly the given path, or fails and does nothing.
-/
class AtomicStore (σ : Type) [Store σ] : Prop where
  /-- A write that succeeded is read back, where reading is possible at all. -/
  read_written {s s' : σ} {path : Path} {text : String} {before : Option String}
    (h : Store.write s path text = (.ok (), s')) (hread : Store.read s path = .ok before) :
    Store.read s' path = .ok (some text)
  /-- A write that succeeded leaves the other files alone. -/
  read_other {s s' : σ} {path : Path} {text : String}
    (h : Store.write s path text = (.ok (), s')) {other : Path} (hother : path.same other = false) :
    Store.read s' other = Store.read s other
  /-- A write that failed has changed nothing. -/
  unchanged {s s' : σ} {path : Path} {text reason : String}
    (h : Store.write s path text = (.error reason, s')) : s' = s

instance {σ : Type} [Store σ] [LawfulStore σ] : AtomicStore σ where
  read_written {_ _ path _ _} h _ := by
    rw [LawfulStore.read_write h path, if_pos (Path.same_refl path)]
  read_other h other hother := by
    rw [LawfulStore.read_write h other, hother, if_neg Bool.false_ne_true]
  unchanged h := LawfulStore.write_error h

namespace RestrictedStore

variable {σ : Type} [Store σ] {s s' : RestrictedStore σ} {path : Path} {text : String}

/-- A restricted store gives what the inner store gives, if it does not refuse to. -/
theorem read_ok {content : Option String} (h : Store.read s path = .ok content) :
    s.unreadable.any path.same = false ∧ Store.read s.inner path = .ok content := by
  change (if s.unreadable.any path.same then _ else _) = _ at h
  cases hrefused : s.unreadable.any path.same with
  | true =>
    rw [hrefused, if_pos rfl] at h
    cases h
  | false =>
    rw [hrefused, if_neg Bool.false_ne_true] at h
    exact ⟨rfl, h⟩

/-- A restricted store refuses a write and stays as it is, or hands it to the inner store. -/
theorem write_cases {result : Except String Unit} (h : Store.write s path text = (result, s')) :
    (result = .error "write refused" ∧ s' = s) ∨
      ∃ inner, Store.write s.inner path text = (result, inner) ∧
        s' = { s with inner := inner } := by
  change (if s.unwritable.any path.same then _ else _) = _ at h
  split at h
  · cases h
    exact .inl ⟨rfl, rfl⟩
  · cases h
    exact .inr ⟨_, rfl, rfl⟩

instance [AtomicStore σ] : AtomicStore (RestrictedStore σ) where
  read_written {s _ path text _} h hread := by
    obtain ⟨⟨⟩, -⟩ | ⟨inner, hwrite, rfl⟩ := write_cases h
    obtain ⟨hrefused, hinner⟩ := read_ok hread
    change (if s.unreadable.any path.same then _ else Store.read inner path) = _
    rw [hrefused, if_neg Bool.false_ne_true]
    exact AtomicStore.read_written hwrite hinner
  read_other {s _ path _} h other hother := by
    obtain ⟨⟨⟩, -⟩ | ⟨inner, hwrite, rfl⟩ := write_cases h
    change (if s.unreadable.any other.same then _ else Store.read inner other) =
      if s.unreadable.any other.same then _ else Store.read s.inner other
    rw [AtomicStore.read_other hwrite hother]
  unchanged h := by
    obtain ⟨-, hs⟩ | ⟨inner, hwrite, rfl⟩ := write_cases h
    · exact hs
    · rw [AtomicStore.unchanged hwrite]

end RestrictedStore

/-! ## Runs -/

/-- A file that can be read holds what was read. -/
theorem Store.readFile_ok {σ : Type} [Store σ] {s : σ} {path : Path} {content : Option String}
    (h : Store.readFile s path = .ok content) : Store.read s path = .ok content := by
  rw [Store.readFile] at h
  cases hread : Store.read s path with
  | error reason =>
    rw [hread] at h
    cases h
  | ok found =>
    rw [hread] at h
    cases h
    rfl

namespace Layer

section

variable {σ : Type} [Store σ] {settings : Settings} {s s' : σ} {output : Output}

/-- A run that gives a text has read what the output file held. -/
theorem read_of_build (h : build settings s = .ok output) :
    output.path = settings.output ∧ Store.read s settings.output = .ok output.previous := by
  obtain ⟨layer, previous, -, hprevious, rfl⟩ := build_ok.1 h
  exact ⟨rfl, Store.readFile_ok hprevious⟩

/-- A file that holds the text is up to date. -/
theorem isUpToDate_of_read (h : build settings s = .ok output)
    (hread : Store.read s settings.output = .ok (some output.text)) : output.isUpToDate = true := by
  obtain ⟨-, hprevious⟩ := read_of_build h
  have heq : some output.text = output.previous := Except.ok.inj (hread.symm.trans hprevious)
  rw [Output.isUpToDate, ← heq]
  exact beq_self_eq_true _

/-- A run that fails leaves the store as it was, wherever it fails. -/
theorem generate_error [AtomicStore σ] {e : LayerError}
    (h : generate settings s = (.error e, s')) : s' = s := by
  rcases generate_cases h with ⟨_, -, -, hs⟩ | ⟨_, -, -, ⟨⟩, -⟩ | ⟨_, -, -, ⟨⟩, -⟩ |
    ⟨_, _, -, -, -, hwrite⟩
  · exact hs
  · exact AtomicStore.unchanged hwrite

/-- After a run that succeeds, the file reads back as the text and no other file has changed. -/
theorem generate_reads [AtomicStore σ] (h : generate settings s = (.ok output, s')) :
    Store.read s' settings.output = .ok (some output.text) ∧
      ∀ path, settings.output.same path = false → Store.read s' path = Store.read s path := by
  obtain ⟨hbuild, ⟨hdate, rfl⟩ | hwrite⟩ := generate_ok h
  · obtain ⟨-, hread⟩ := read_of_build hbuild
    have hprevious : output.previous = some output.text := beq_iff_eq.1 hdate
    exact ⟨hprevious ▸ hread, fun _ _ => rfl⟩
  · obtain ⟨-, hread⟩ := read_of_build hbuild
    exact ⟨AtomicStore.read_written hwrite hread, fun path => AtomicStore.read_other hwrite⟩

/-- All that a run writes is the text that it gives, under its own path. -/
theorem mem_writes {w : Path × String} (h : w ∈ writes settings s) :
    ∃ output, build settings s = .ok output ∧ w = (settings.output, output.text) := by
  rw [writes_eq] at h
  cases hbuild : build settings s with
  | error e =>
    rw [hbuild] at h
    cases h
  | ok output =>
    obtain ⟨hpath, -⟩ := read_of_build hbuild
    simp only [hbuild] at h
    split at h
    · cases h
    · rw [List.mem_singleton, hpath] at h
      exact ⟨output, rfl, h⟩

/-- A run writes once at most. -/
theorem length_writes_le_one (settings : Settings) (s : σ) : (writes settings s).length ≤ 1 := by
  rw [writes_eq]
  cases build settings s with
  | error e => exact Nat.zero_le 1
  | ok output =>
    dsimp only
    split
    · exact Nat.zero_le 1
    · exact Nat.le_refl 1

end

/-- On a store with writes that are all or nothing, a run that fails leaves the store as it was, and
one that succeeds leaves a store in which the output file reads back as the text and nothing else
has changed. A run writes once at most, and only its text under its path; it writes nothing if the
file holds the text already. -/
theorem generate_atomic {σ : Type} [Store σ] [AtomicStore σ] (settings : Settings) (s : σ) :
    (∀ e s', generate settings s = (.error e, s') → s' = s) ∧
    (∀ output s', generate settings s = (.ok output, s') →
      Store.read s' settings.output = .ok (some output.text) ∧
      ∀ path, settings.output.same path = false → Store.read s' path = Store.read s path) ∧
    (writes settings s).length ≤ 1 ∧
    (∀ w ∈ writes settings s,
      ∃ output, build settings s = .ok output ∧ w = (settings.output, output.text)) ∧
    ∀ output, build settings s = .ok output →
      Store.read s settings.output = .ok (some output.text) → writes settings s = [] := by
  refine ⟨fun e s' h => generate_error h, fun output s' h => generate_reads h,
    length_writes_le_one settings s, fun w h => mem_writes h, fun output h hread => ?_⟩
  exact (writes_eq_nil_iff h).2 (isUpToDate_of_read h hread)

/-- The small declaration file in a store that refuses to write some paths. -/
def guardedStore (unwritable : List Path) : RestrictedStore MemoryStore :=
  ⟨smallStore, [], unwritable⟩

/-- Where the output file cannot be written the run fails and the store stays as it was. Where it
can, the file reads back as the text and the declaration file is as before. -/
theorem generate_atomic_small :
    (∃ e, generate smallSettings (guardedStore [smallSettings.output]) =
      (.error e, guardedStore [smallSettings.output])) ∧
    ∃ output s', generate smallSettings (guardedStore []) = (.ok output, s') ∧
      Store.read s' smallSettings.output = .ok (some output.text) ∧
      Store.read s' smallSettings.declarationFile =
        Store.read (guardedStore []) smallSettings.declarationFile := by
  have hresult (paths : List Path) (ok : Bool)
      (h : (generate smallSettings (guardedStore paths)).1.toBool = ok) :
      ∃ result s', generate smallSettings (guardedStore paths) = (result, s') ∧
        result.toBool = ok := ⟨_, _, rfl, h⟩
  constructor
  · obtain ⟨⟨e⟩ | ⟨⟩, s', h, hok⟩ := hresult [smallSettings.output] false (by decide +kernel)
    · obtain rfl := (generate_atomic smallSettings (guardedStore [smallSettings.output])).1 e s' h
      exact ⟨e, h⟩
    · cases hok
  · obtain ⟨⟨⟩ | ⟨output⟩, s', h, hok⟩ := hresult [] true (by decide +kernel)
    · cases hok
    · obtain ⟨hread, hother⟩ :=
        (generate_atomic smallSettings (guardedStore [])).2.1 output s' h
      exact ⟨output, s', h, hread, hother smallSettings.declarationFile (by decide +kernel)⟩

end Layer

end DeclLayer
