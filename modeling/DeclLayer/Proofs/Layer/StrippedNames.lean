import DeclLayer.Proofs.Layer.Stripping
import DeclLayer.Proofs.Parse.ItemNames
import DeclLayer.Render.Item

/-!
# Names after stripping

The references in a source that was read are dotted names. When import types are stripped, the
qualifiers of the imports become references as well, and one of them can be empty: the parser takes
a dot behind the brackets of an import for the beginning of a qualifier, even if no word follows the
dot. Such an import is replaced by a reference without a name, which is printed as nothing at all.

`stripImportTypes_names` says that these are the only references that are no dotted names, and that
there are none in sources without such a dot. `stripImportTypes_emptyName` is a source with one.
-/

namespace DeclLayer

open Token

namespace Item

/-- What a statement with names in the place of imports refers to, at its own level and below. -/
theorem mem_references_byName_iff {item : Item} {name : String} :
    name ∈ item.byName.references ↔ (name ∈ item.keptReferences ∨ name ∈ item.importedNames) ∨
      ∃ inner ∈ item.nested, name ∈ inner.byName.references := by
  rw [references, nodes_byName, List.filterMap_cons_none rfl, List.filterMap_append,
    List.mem_append, Node.mem_references_stripped, List.filterMap_flatMap, List.mem_flatMap]
  rfl

/-- A name that takes the place of an import does so in the statement or in one nested in it. -/
theorem mem_replacedNames_iff {item : Item} {name : String} :
    name ∈ item.replacedNames ↔
      name ∈ item.importedNames ∨ ∃ inner ∈ item.nested, name ∈ inner.replacedNames := by
  rw [replacedNames_eq, List.mem_append, List.mem_flatMap]

/-- It refers to what it referred to before, or to what has replaced an import. -/
theorem mem_references_byName {item : Item} {name : String} (h : name ∈ item.byName.references) :
    name ∈ item.references ∨ name ∈ item.replacedNames := by
  induction item using Item.nested_induction with
  | step item ih =>
    rcases mem_references_byName_iff.1 h with (h | h) | ⟨inner, hinner, h⟩
    · exact .inl (mem_references_of_mem_keptReferences h)
    · exact .inr (mem_replacedNames_iff.2 (.inl h))
    · rcases ih inner hinner h with h | h
      · obtain ⟨node, hnode, href⟩ := List.mem_filterMap.1 h
        exact .inl (List.mem_filterMap.2 ⟨node, mem_nodes_of_nested hinner hnode, href⟩)
      · exact .inr (mem_replacedNames_iff.2 (.inr ⟨inner, hinner, h⟩))

/-- The name of an import that is replaced becomes a reference. -/
theorem mem_references_of_replaced {item : Item} {name : String} (h : name ∈ item.replacedNames) :
    name ∈ item.byName.references := by
  induction item using Item.nested_induction with
  | step item ih =>
    rcases mem_replacedNames_iff.1 h with h | ⟨inner, hinner, h⟩
    · exact mem_references_byName_iff.2 (.inl (.inr h))
    · exact mem_references_byName_iff.2 (.inr ⟨inner, hinner, ih inner hinner h⟩)

/-- What replaces an import is the name of an import in the statement. -/
theorem exists_import_of_replaced {item : Item} {name : String} (h : name ∈ item.replacedNames) :
    ∃ node ∈ item.nodes, node.importedName? = some name := by
  induction item using Item.nested_induction with
  | step item ih =>
    rcases mem_replacedNames_iff.1 h with h | ⟨inner, hinner, h⟩
    · obtain ⟨node, hnode, hname⟩ := List.mem_filterMap.1 h
      exact ⟨node, mem_nodes_of_mem_keptNodes hnode, hname⟩
    · obtain ⟨node, hnode, hname⟩ := ih inner hinner h
      exact ⟨node, mem_nodes_of_nested hinner hnode, hname⟩

variable {ks : List Kind} {item : Item} {name : String}

/-- The references of a sound statement are dotted names. -/
theorem Sound.isDotted (h : item.Sound ks) (hname : name ∈ item.references) :
    isDotted name = true := by
  obtain ⟨node, hnode, href⟩ := List.mem_filterMap.1 hname
  have hsound := h node hnode
  revert href hsound
  fun_cases Node.reference? node with
  | case1 | case2 =>
    rintro ⟨⟩ hsound
    exact hsound
  | case3 => exact nofun

/-- The names of imports in a sound statement are dotted names, or come from a dangling dot. -/
theorem Sound.replaced (h : item.Sound ks) (hname : name ∈ item.replacedNames) :
    Token.isDotted name = true ∨ name = "" ∧ DanglingDot ks := by
  obtain ⟨node, hnode, himport⟩ := exists_import_of_replaced hname
  have hsound := h node hnode
  revert himport hsound
  fun_cases Node.importedName? node with
  | case1 =>
    rintro ⟨⟩ hsound
    exact hsound
  | case2 => rintro ⟨⟩

end Item

/-- When the import types of a source are stripped, every reference is a dotted name or empty. All
of them are dotted names unless an import with an empty qualifier is replaced, and there is one only
if the brackets of an import in the source are followed by a dot, and the dot by no word. -/
theorem stripImportTypes_names (source : String) (items : List Item)
    (h : parseItems source = .ok items) :
    (∀ item ∈ (stripImportTypes items).1, ∀ name ∈ item.references,
      isDotted name = true ∨ name = "") ∧
    ((∀ item ∈ (stripImportTypes items).1, ∀ name ∈ item.references, isDotted name = true) ↔
      "" ∉ Item.replacedNamesList items) ∧
    ("" ∈ Item.replacedNamesList items → DanglingDot ((scan source).map Token.kind)) := by
  have hsound := parseItems_sound h
  have hitems : (stripImportTypes items).1 = items.map Item.byName := by
    rw [stripImportTypes_eq, Item.byNameList_eq]
  rw [hitems, Item.replacedNamesList_eq]
  have hempty (hname : "" ∈ items.flatMap Item.replacedNames) :
      (∃ item ∈ items.map Item.byName, "" ∈ item.references) ∧
        DanglingDot ((scan source).map Token.kind) := by
    obtain ⟨item, hitem, hname⟩ := List.mem_flatMap.1 hname
    refine ⟨⟨_, List.mem_map_of_mem hitem, Item.mem_references_of_replaced hname⟩, ?_⟩
    exact ((hsound item hitem).replaced hname).elim nofun And.right
  have hnames : ∀ item ∈ items.map Item.byName, ∀ name ∈ item.references,
      isDotted name = true ∨ name = "" ∧ "" ∈ items.flatMap Item.replacedNames := by
    rw [List.forall_mem_map]
    intro item hitem name hname
    rcases Item.mem_references_byName hname with hname | hname
    · exact .inl ((hsound item hitem).isDotted hname)
    · refine ((hsound item hitem).replaced hname).imp_right fun h => ?_
      exact ⟨h.1, List.mem_flatMap.2 ⟨item, hitem, h.1 ▸ hname⟩⟩
  refine ⟨fun item hitem name hname => (hnames item hitem name hname).imp_right And.left,
    ⟨fun hdotted hname => ?_, fun hno item hitem name hname => ?_⟩, fun hname => (hempty hname).2⟩
  · obtain ⟨⟨item, hitem, hname⟩, -⟩ := hempty hname
    exact absurd (hdotted item hitem "" hname) (by decide)
  · exact (hnames item hitem name hname).resolve_right fun h => hno h.2

/-- The dot behind the brackets is taken for a qualifier, and the alias is left without a type. -/
theorem stripImportTypes_emptyName :
    ∃ items, parseItems "type A = import(\"m\").;" = .ok items ∧
      ((stripImportTypes items).2 = 1 ∧
        (stripImportTypes items).1.map Item.references = [[""]] ∧
        renderItems .standard (stripImportTypes items).1 = "type A = ;\n") ∧
      DanglingDot ((scan "type A = import(\"m\").;").map Token.kind) := by
  have hread : ((parseItems "type A = import(\"m\").;").toOption.any fun items =>
      (stripImportTypes items).2 = 1 ∧
        (stripImportTypes items).1.map Item.references = [[""]] ∧
        renderItems .standard (stripImportTypes items).1 = "type A = ;\n") = true := by
    decide +kernel
  cases hparse : parseItems "type A = import(\"m\").;" with
  | error e =>
    rw [hparse] at hread
    cases hread
  | ok items =>
    rw [hparse] at hread
    have hstripped := of_decide_eq_true hread
    refine ⟨items, rfl, hstripped, ?_⟩
    obtain ⟨-, hiff, hdot⟩ := stripImportTypes_names _ items hparse
    refine hdot (not_not.1 fun hno => ?_)
    have hempty : ∃ item ∈ (stripImportTypes items).1, "" ∈ item.references := by
      have hmem : [""] ∈ (stripImportTypes items).1.map Item.references := by
        rw [hstripped.2.1]
        exact List.mem_singleton.2 rfl
      obtain ⟨item, hitem, href⟩ := List.mem_map.1 hmem
      exact ⟨item, hitem, href ▸ List.mem_singleton.2 rfl⟩
    obtain ⟨item, hitem, hname⟩ := hempty
    exact absurd (hiff.2 hno item hitem "" hname) (by decide)

end DeclLayer
