import DeclLayer.Proofs.Layer.Build
import DeclLayer.Proofs.Layer.ImportType

/-!
# Strict mode and the emitted file

In strict mode a run ends if a separated declaration refers to something that only the namespace
holds. The check is made on the declarations before their import types are stripped, and stripping
can undo it in two ways: the name of a stripped import is a reference that was not checked, and the
arguments of a stripped import of a value take binders away that the check relied on.
`Item.StripsClean` says that a declaration has neither, and `strict_emitted_resolved_iff` that the
emitted file is free of unresolved references exactly if all its separated declarations are of that
kind. `strict_emits_unresolved` is a file with an import that is not.
-/

namespace DeclLayer

/-! ## Unresolved references -/

/-- A reference is resolved if its first word is bound around it, hoisted, or not declared in the
namespace. -/
theorem isUnresolved_eq_false {index : Index} {p : Policy} {bound : List String} {name : String} :
    isUnresolved index p bound name = false ↔
      headWord name ∈ bound ∨ p.hoistsName (headWord name) = true ∨
        index.contains (headWord name) = false := by
  simp only [isUnresolved, Bool.and_eq_false_iff, Bool.not_eq_false', List.contains_iff_mem,
    or_assoc]

/-- A declaration has no unresolved references if none of its references is one. -/
theorem Item.unresolved_eq_nil {index : Index} {p : Policy} {item : Item}
    (h : item.name?.isSome) :
    item.unresolved index p = [] ↔
      ∀ name ∈ item.references, isUnresolved index p item.boundNames name = false := by
  obtain ⟨declaration, hname⟩ := Option.isSome_iff_exists.1 h
  rw [Item.unresolved, hname]
  rw [List.map_eq_nil_iff, List.eq_nil_iff_forall_not_mem]
  simp only [List.mem_eraseDups, List.mem_filter, not_and, Bool.not_eq_true]

/-! ## Module scope -/

/-- The enums, interfaces and type aliases among the statements of a file. -/
def moduleScope (items : List Item) : List Item :=
  items.filter fun item => item.kind?.any [DeclKind.enum, .interface, .typeAlias].contains

/-- The module scope of two lists of statements is that of the first and that of the second. -/
theorem moduleScope_append (items items' : List Item) :
    moduleScope (items ++ items') = moduleScope items ++ moduleScope items' :=
  List.filter_append items items'

@[simp] theorem Item.kind?_mapParts (rename : String → String) (f : Ty → Ty) (item : Item) :
    (item.mapParts rename f).kind? = item.kind? := by
  cases item <;> rfl

/-- Changing types and names of types leaves the statements at module scope there. -/
theorem moduleScope_map_mapParts (rename : String → String) (f : Ty → Ty) (items : List Item) :
    moduleScope (items.map (Item.mapParts rename f)) =
      (moduleScope items).map (Item.mapParts rename f) := by
  simp [moduleScope, List.filter_map, Function.comp_def]

/-- What stands in module scope has a name and no statements in it. -/
theorem mem_moduleScope {item : Item} {items : List Item} (h : item ∈ moduleScope items) :
    item ∈ items ∧ item.name?.isSome ∧ item.nested = [] := by
  obtain ⟨hmem, hkind⟩ := List.mem_filter.1 h
  refine ⟨hmem, ?_⟩
  cases item with
  | enum | interface | typeAlias => exact ⟨rfl, rfl⟩
  | _ => cases hkind

/-- In the file of a layer the separated declarations stand in module scope, and nothing else. -/
theorem moduleScope_statements (settings : Settings) (layer : Layer) :
    moduleScope (layer.statements settings) = layer.outer.items := by
  have himports (l : List Import) : moduleScope (l.map .imports) = [] := by
    simp [moduleScope, Item.kind?]
  have hbridge (b : Bridge) : moduleScope b.statements = [] := by
    rw [Bridge.statements]
    split <;> rfl
  have houter : moduleScope layer.outer.items = layer.outer.items := by
    refine List.filter_eq_self.2 fun item hitem => ?_
    simp only [Separation.items, List.mem_append, List.mem_map] at hitem
    rcases hitem with (⟨d, -, rfl⟩ | ⟨d, -, rfl⟩) | ⟨d, -, rfl⟩ <;> rfl
  have hspace : moduleScope [.space layer.consolidated] = [] := rfl
  rw [Layer.statements, moduleScope_append, moduleScope_append, moduleScope_append, himports,
    houter, hspace, hbridge, List.nil_append, List.append_nil, List.append_nil]

/-- The emitted separated declarations are those of the layer, stripped one by one. -/
theorem moduleScope_emitted (settings : Settings) (layer : Layer) :
    moduleScope (layer.emitted settings) =
      layer.outer.items.map
        (Item.mapParts id
          (importRevision.ty (Item.nodesList (layer.statements settings)).length)) := by
  rw [Layer.emitted, stripImportTypes_fst, moduleScope_map_mapParts, moduleScope_statements]

/-! ## Declarations that strip clean -/

/-- Stripping leaves a declaration without references that only the namespace can resolve, if there
were none before: the names of its imports are none, and neither are the references that lose the
binder they had. -/
structure Item.StripsClean (index : Index) (p : Policy) (item : Item) : Prop where
  imports : ∀ name ∈ item.importedNames, isUnresolved index p item.keptBoundNames name = false
  binders : ∀ name ∈ item.keptReferences, headWord name ∈ item.boundNames →
    headWord name ∉ item.keptBoundNames →
      p.hoistsName (headWord name) = true ∨ index.contains (headWord name) = false

/-- A declaration without unresolved references has none after it is stripped exactly if it strips
clean. -/
theorem Item.unresolved_strip_eq_nil {index : Index} {p : Policy} {item : Item} {levels : Nat}
    (hname : item.name?.isSome) (hnested : item.nested = []) (hlevels : item.nodes.length ≤ levels)
    (hbefore : item.unresolved index p = []) :
    (item.mapParts id (importRevision.ty levels)).unresolved index p = [] ↔
      item.StripsClean index p := by
  rw [Item.unresolved_eq_nil hname] at hbefore
  rw [Item.unresolved_eq_nil (by rwa [Item.name?_mapParts]), Item.boundNames_strip hnested hlevels]
  constructor
  · intro h
    have hmem {name : String} (hname : name ∈ item.keptReferences ∨ name ∈ item.importedNames) :=
      isUnresolved_eq_false.1 (h name ((Item.mem_references_strip hnested hlevels).2 hname))
    refine ⟨fun name hname => isUnresolved_eq_false.2 (hmem (.inr hname)), ?_⟩
    intro name hname _ hkept
    exact (hmem (.inl hname)).resolve_left hkept
  · intro h name hname
    rcases (Item.mem_references_strip hnested hlevels).1 hname with hname | hname
    · by_cases hkept : headWord name ∈ item.keptBoundNames
      · exact isUnresolved_eq_false.2 (.inl hkept)
      · have hchecked := hbefore name (Item.mem_references_of_mem_keptReferences hname)
        rcases isUnresolved_eq_false.1 hchecked with hbound | hfree
        · exact isUnresolved_eq_false.2 (.inr (h.binders name hname hbound hkept))
        · exact isUnresolved_eq_false.2 (.inr hfree)
    · exact h.imports name hname

/-- If a strict run succeeds, the separated declarations of the emitted file are free of references
that only the namespace can resolve exactly if all of them strip clean. -/
theorem strict_emitted_resolved_iff {σ : Type} [Store σ] {settings : Settings} {s : σ}
    {output : Output} (hstrict : settings.strict = true)
    (hbuild : Layer.build settings s = .ok output) :
    ∃ declarations index layer,
      Store.document s settings.declarationFile = .ok declarations ∧
      Index.build settings.namespaceName declarations.statements = .ok index ∧
      Layer.plan settings declarations.statements = .ok layer ∧
      output.text = settings.lineEnd.normalize
        (renderItems settings.style (.verbatim Header.text :: layer.emitted settings)) ∧
      (findUnresolved index settings.policy (moduleScope (layer.emitted settings)) = [] ↔
        ∀ item ∈ layer.outer.items, item.StripsClean index settings.policy) := by
  obtain ⟨layer, previous, hlayer, -, rfl⟩ := Layer.build_ok.1 hbuild
  obtain ⟨declarations, hdeclarations, hplan⟩ := bind_eq_ok.1 hlayer
  obtain ⟨index, _, _, _, hindex, -, -, -, -, -, hunresolved, hnone⟩ := Layer.plan_ok hplan
  refine ⟨declarations, index, layer, hdeclarations, hindex, hplan, by rw [Layer.fileText], ?_⟩
  have hbefore := hunresolved.symm.trans (hnone hstrict)
  rw [findUnresolved, List.flatMap_eq_nil_iff] at hbefore
  rw [findUnresolved, List.flatMap_eq_nil_iff, moduleScope_emitted, List.forall_mem_map]
  refine forall₂_congr fun item hitem => ?_
  have hscope : item ∈ moduleScope (layer.statements settings) := by
    rwa [moduleScope_statements]
  obtain ⟨hstatement, hname, hnested⟩ := mem_moduleScope hscope
  exact Item.unresolved_strip_eq_nil hname hnested (Item.nodes_length_le hstatement)
    (hbefore item hitem)

/-- A store with a declaration file in which `Options` imports the type `Kept` of its own
namespace. -/
def importingStore : MemoryStore :=
  .ofList [(⟨"lib.d.ts"⟩,
    "declare namespace ts \x7b interface Node {} interface Kept {} " ++
      "interface Options \x7b value: import(\"m\").Kept; \x7d \x7d")]

/-- Strict settings that separate `Options`. -/
def importingSettings : Settings :=
  { Settings.standard with
    declarationFile := ⟨"lib.d.ts"⟩
    policy := { Policy.empty with interfaces := ["Options"] }
    strict := true }

/-- A strict run can succeed and emit a reference that only the namespace can resolve: `Options`
does not strip clean. -/
theorem strict_emits_unresolved :
    ∃ output, Layer.build importingSettings importingStore = .ok output ∧
      ∃ declarations index layer,
        Store.document importingStore importingSettings.declarationFile = .ok declarations ∧
        Index.build importingSettings.namespaceName declarations.statements = .ok index ∧
        Layer.plan importingSettings declarations.statements = .ok layer ∧
        output.text = importingSettings.lineEnd.normalize (renderItems importingSettings.style
          (.verbatim Header.text :: layer.emitted importingSettings)) ∧
        findUnresolved index importingSettings.policy
          (moduleScope (layer.emitted importingSettings)) = [⟨"Options", "Kept"⟩] ∧
        ¬ ∀ item ∈ layer.outer.items, item.StripsClean index importingSettings.policy := by
  obtain ⟨output, hbuild⟩ : ∃ output, Layer.build importingSettings importingStore = .ok output :=
    exists_ok (by decide +kernel)
  have hunresolved : (do
      let declarations ← Store.document importingStore importingSettings.declarationFile
      let index ← Index.build importingSettings.namespaceName declarations.statements
      let layer ← Layer.plan importingSettings declarations.statements
      return findUnresolved index importingSettings.policy
        (moduleScope (layer.emitted importingSettings)) : Except LayerError _) =
      .ok [⟨"Options", "Kept"⟩] := by
    decide +kernel
  have hstrict : importingSettings.strict = true := rfl
  obtain ⟨declarations, index, layer, hdeclarations, hindex, hplan, htext, hiff⟩ :=
    strict_emitted_resolved_iff hstrict hbuild
  obtain ⟨_, hdeclarations', hunresolved⟩ := bind_eq_ok.1 hunresolved
  cases hdeclarations.symm.trans hdeclarations'
  obtain ⟨_, hindex', hunresolved⟩ := bind_eq_ok.1 hunresolved
  cases hindex.symm.trans hindex'
  obtain ⟨_, hplan', hunresolved⟩ := bind_eq_ok.1 hunresolved
  cases hplan.symm.trans hplan'
  have hlist := Except.ok.inj hunresolved
  refine ⟨output, hbuild, declarations, index, layer, hdeclarations, hindex, hplan, htext, hlist,
    fun hclean => ?_⟩
  rw [hiff.2 hclean] at hlist
  cases hlist

end DeclLayer
