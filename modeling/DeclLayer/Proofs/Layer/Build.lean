import DeclLayer.Layer.Generate

/-!
# What a run does

A run reads the layer of the declaration file (`Layer.ofStore`), reads what the output file holds,
and answers the text of the layer (`Layer.fileText`); nothing else of the store has a part in it
(`Layer.build_eq`). The layer comes out of a fixed sequence of steps, each of which can end the run
(`Layer.plan_ok`).
-/

namespace DeclLayer

/-- A chain of two steps succeeds if both do. -/
theorem bind_eq_ok {ε α β : Type} {x : Except ε α} {f : α → Except ε β} {b : β} :
    x >>= f = .ok b ↔ ∃ a, x = .ok a ∧ f a = .ok b := by
  cases x with
  | error e => exact ⟨nofun, nofun⟩
  | ok a => exact ⟨fun h => ⟨a, rfl, h⟩, by rintro ⟨_, ⟨⟩, h⟩; exact h⟩

/-- A result that is no error is a success. -/
theorem exists_ok {ε α : Type} {x : Except ε α} (h : x.toBool = true) : ∃ a, x = .ok a := by
  cases x with
  | error e => cases h
  | ok a => exact ⟨a, rfl⟩

/-- The document for an output file is empty, whatever the file held. -/
theorem Store.outputDocument_eq {σ : Type} [Store σ] (s : σ) (path : Path) :
    Store.outputDocument s path = (Store.readFile s path).map fun _ => Document.empty path := by
  rw [Store.outputDocument]
  cases Store.readFile s path with
  | error e => rfl
  | ok text => cases text <;> rfl

namespace Layer

/-- The statements of the file of a layer, below the header. -/
def emitted (settings : Settings) (layer : Layer) : List Item :=
  (DeclLayer.stripImportTypes (layer.statements settings)).1

/-- The text of the file of a layer. -/
def fileText (settings : Settings) (layer : Layer) : String :=
  settings.lineEnd.normalize
    (renderItems settings.style (.verbatim Header.text :: layer.emitted settings))

section

variable {σ : Type} [Store σ]

/-- The layer of the declaration file in a store. -/
def ofStore (settings : Settings) (s : σ) : Except LayerError Layer := do
  let declarations ← Store.document s settings.declarationFile
  plan settings declarations.statements

/-- A run depends on the layer of the declaration file and on what the output file holds, and its
text on the layer alone. -/
theorem build_eq (settings : Settings) (s : σ) :
    build settings s = do
      let layer ← ofStore settings s
      let previous ← Store.readFile s settings.output
      return ⟨settings.output, layer.fileText settings, previous, layer.unresolved⟩ := by
  rw [build, ofStore]
  cases Store.document s settings.declarationFile with
  | error e => rfl
  | ok declarations =>
    show (plan settings declarations.statements >>= _) =
      (plan settings declarations.statements >>= _)
    congr 1
    funext layer
    rw [Store.outputDocument_eq]
    cases Store.readFile s settings.output <;> rfl

/-- A run that succeeds has read a layer and the output file. -/
theorem build_ok {settings : Settings} {s : σ} {output : Output} :
    build settings s = .ok output ↔ ∃ layer previous, ofStore settings s = .ok layer ∧
      Store.readFile s settings.output = .ok previous ∧
      output = ⟨settings.output, layer.fileText settings, previous, layer.unresolved⟩ := by
  rw [build_eq]
  simp only [bind_eq_ok]
  constructor
  · rintro ⟨layer, hlayer, previous, hprevious, h⟩
    exact ⟨layer, previous, hlayer, hprevious, (Except.ok.inj h).symm⟩
  · rintro ⟨layer, previous, hlayer, hprevious, rfl⟩
    exact ⟨layer, hlayer, previous, hprevious, rfl⟩

end

/-- The steps of a plan: the index, the check of the policy, the separation, the rules, the check of
the references in strict mode, and the brand. -/
theorem plan_ok {settings : Settings} {declarations : List Item} {layer : Layer}
    (h : plan settings declarations = .ok layer) :
    ∃ index interfaces count branded,
      Index.build settings.namespaceName declarations = .ok index ∧
      settings.policy.validate index settings.namespaceName = .ok () ∧
      Rule.applyAll settings.namespaceName settings.policy.rules
        (Separation.split index settings.policy).interfaces = (interfaces, .ok count) ∧
      settings.brand.inject (consolidate index settings.policy settings.namespaceName) =
        .ok branded ∧
      layer.outer = { Separation.split index settings.policy with interfaces := interfaces } ∧
      layer.consolidated = settings.runtime.addOverwrite branded ∧
      layer.unresolved = findUnresolved index settings.policy layer.outer.items ∧
      (settings.strict = true → layer.unresolved = []) := by
  rw [plan] at h
  obtain ⟨index, hindex, h⟩ := bind_eq_ok.1 h
  obtain ⟨⟨⟩, hvalidate, h⟩ := bind_eq_ok.1 h
  obtain ⟨count, hcount, h⟩ := bind_eq_ok.1 h
  dsimp only at h
  split at h
  · cases h
  · next hstrict =>
    obtain ⟨branded, hbranded, h⟩ := bind_eq_ok.1 h
    cases h
    refine ⟨index, _, count, branded, hindex, hvalidate, Prod.ext rfl hcount, hbranded, rfl, rfl,
      rfl, fun hs => ?_⟩
    simpa [hs] using hstrict

end Layer

end DeclLayer
