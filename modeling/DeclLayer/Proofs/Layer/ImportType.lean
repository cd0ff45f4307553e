import DeclLayer.Layer.Reference
import DeclLayer.Proofs.Tree.Revision
import Mathlib.Data.List.Basic

/-!
# What is left of a declaration without its import types

Stripping import types is a revision (`importRevision`), so its answer has an equation without
levels and counts: strip the type itself, then its parts (`Ty.stripped_eq`).

An import of a value loses its type arguments when it becomes `typeof q`, and with them every
reference and every binder in them. The nodes that stay are the *kept* ones (`Ty.keptNodes`), and
the nodes of a stripped type are the kept nodes of the type, each of them stripped
(`Ty.nodes_stripped`). What a stripped declaration binds is what the kept nodes bind
(`Item.boundNames_strip`), and what it refers to is what they refer to, together with the names of
the stripped imports (`Item.mem_references_strip`).
-/

namespace DeclLayer

/-! ## Stripping as a revision -/

/-- A type without the import that it is, if it is an import by name. -/
def Ty.unimported : Ty → Ty
  | .imported _ (some qualifier) args isTypeof =>
    if isTypeof then .typeOf qualifier else .named qualifier args
  | ty => ty

/-- The name that a node is an import of. -/
def Node.importedName? : Node → Option String
  | .type (.imported _ (some qualifier) _ _) => some qualifier
  | _ => none

/-- The revision that strips import types, with an event for each of them. -/
def importRevision : Revision String where
  rename := id
  replace := Ty.unimported
  events node := node.importedName?.toList

/-- The editor that strips imports carries out the revision, and counts each import. -/
theorem importStripper_carriesOut :
    importStripper.CarriesOut (fun count _ => count + 1) importRevision where
  item _ := .pure ()
  param name := .pure name
  type ty := by
    intro count
    cases ty with
    | imported module qualifier args isTypeof => cases qualifier <;> rfl
    | _ => rfl

/-- The parts of a type that stay when it is stripped: an import of a value loses its arguments. -/
def Ty.keptParts : Ty → List Part
  | .imported _ (some _) _ true => []
  | ty => ty.parts

/-- The parts of a type without its import are the parts that stay. -/
theorem Ty.parts_unimported (ty : Ty) : ty.unimported.parts = ty.keptParts := by
  cases ty with
  | imported module qualifier args isTypeof =>
    cases qualifier <;> cases isTypeof <;> rfl
  | _ => rfl

/-- The parts that stay are parts of the type. -/
theorem Ty.mem_parts_of_mem_keptParts {ty : Ty} {part : Part} (h : part ∈ ty.keptParts) :
    part ∈ ty.parts := by
  cases ty with
  | imported module qualifier args isTypeof =>
    cases qualifier <;> cases isTypeof
    case some.true => cases h
    all_goals exact h
  | _ => exact h

/-- A type without its import has no more nodes than before, so no more levels are needed. -/
theorem Ty.nodes_unimported_length_le (ty : Ty) :
    ty.unimported.nodes.length ≤ ty.nodes.length := by
  rw [Ty.nodes_eq, Ty.nodes_eq ty, Ty.parts_unimported]
  cases ty with
  | imported module qualifier args isTypeof =>
    cases qualifier <;> cases isTypeof <;> simp [Ty.keptParts]
  | _ => simp [Ty.keptParts]

/-- A type with its import types stripped everywhere. -/
def Ty.stripped (ty : Ty) : Ty :=
  importRevision.ty ty.nodes.length ty

/-- Any number of levels that is large enough strips a type. -/
theorem importRevision_ty {levels : Nat} {ty : Ty} (h : ty.nodes.length ≤ levels) :
    importRevision.ty levels ty = ty.stripped :=
  Revision.ty_eq_of_le Ty.nodes_unimported_length_le h (Nat.le_refl _)

/-- A type is stripped by stripping the type itself and then its parts. -/
theorem Ty.stripped_eq (ty : Ty) : ty.stripped = ty.unimported.mapParts id Ty.stripped := by
  have h := importRevision_ty (Nat.le_succ ty.nodes.length)
  rw [← h]
  refine Ty.mapParts_congr fun t ht => importRevision_ty ?_
  replace ht : .type t ∈ ty.unimported.parts := ht
  rw [Ty.parts_unimported] at ht
  exact Nat.le_of_lt (Ty.nodes_length_lt (Ty.mem_parts_of_mem_keptParts ht))

/-- The statements of a file, stripped one by one. -/
theorem stripImportTypes_fst (items : List Item) :
    (stripImportTypes items).1 =
      items.map (Item.mapParts id (importRevision.ty (Item.nodesList items).length)) := by
  have h := Item.editList_acts importStripper_carriesOut (Item.nodesList items).length items 0
  rw [stripImportTypes, h, Item.mapPartsList_eq]
  rfl

/-! ## Kept nodes -/

mutual

/-- The nodes of a type that stay when it is stripped, parents first. -/
def Ty.keptNodes (ty : Ty) : List Node :=
  .type ty :: ty.keptParts.attach.flatMap fun ⟨part, _⟩ => part.keptNodes
  termination_by (ty.nodes.length, 0)
  decreasing_by exact .left _ _ (Part.nodes_length_lt (Ty.mem_parts_of_mem_keptParts ‹_›))

/-- The kept nodes of a part. -/
def Part.keptNodes : Part → List Node
  | .param name => [.param name]
  | .type ty => ty.keptNodes
  termination_by part => (part.nodes.length, 1)

end

/-- The nodes that stay are the type itself and what stays of its parts. -/
theorem Ty.keptNodes_eq (ty : Ty) :
    ty.keptNodes = .type ty :: ty.keptParts.flatMap Part.keptNodes := by
  rw [Ty.keptNodes, List.flatMap_subtype (g := Part.keptNodes) fun _ _ => rfl,
    List.unattach_attach]

/-- Kept nodes are nodes. -/
theorem Ty.mem_nodes_of_mem_keptNodes {ty : Ty} {node : Node} (h : node ∈ ty.keptNodes) :
    node ∈ ty.nodes := by
  induction ty using Ty.parts_induction with
  | step ty ih =>
    rw [Ty.keptNodes_eq, List.mem_cons, List.mem_flatMap] at h
    rw [Ty.nodes_eq, List.mem_cons, List.mem_flatMap]
    rcases h with h | ⟨part, hpart, h⟩
    · exact .inl h
    · have hpart := Ty.mem_parts_of_mem_keptParts hpart
      refine .inr ⟨part, hpart, ?_⟩
      cases part with
      | param name => rwa [Part.keptNodes] at h
      | type t =>
        rw [Part.keptNodes] at h
        exact ih t hpart h

/-- The nodes that stay of a part are nodes of the part. -/
theorem Part.mem_nodes_of_mem_keptNodes {part : Part} {node : Node} (h : node ∈ part.keptNodes) :
    node ∈ part.nodes := by
  cases part with
  | param name => rwa [Part.keptNodes] at h
  | type ty =>
    rw [Part.keptNodes] at h
    exact Ty.mem_nodes_of_mem_keptNodes h

/-- A node with the types in it stripped. -/
def Node.stripped : Node → Node
  | .type ty => .type ty.stripped
  | node => node

/-- The nodes of a changed part are the nodes that stay, stripped, if that is so for types. -/
theorem Part.nodes_map_of_type {f : Ty → Ty} {part : Part}
    (h : ∀ t, part = .type t → (f t).nodes = t.keptNodes.map Node.stripped) :
    (part.map id f).nodes = part.keptNodes.map Node.stripped := by
  cases part with
  | param name => simp [Part.keptNodes, Node.stripped]
  | type t =>
    rw [Part.map_type, Part.nodes_type, Part.keptNodes]
    exact h t rfl

/-- The nodes of a stripped type are its kept nodes, stripped. -/
theorem Ty.nodes_stripped (ty : Ty) : ty.stripped.nodes = ty.keptNodes.map Node.stripped := by
  induction ty using Ty.parts_induction with
  | step ty ih =>
    have hnodes : ∀ part ∈ ty.keptParts,
        (part.map id Ty.stripped).nodes = part.keptNodes.map Node.stripped := by
      intro part hpart
      refine Part.nodes_map_of_type ?_
      rintro t rfl
      exact ih t (Ty.mem_parts_of_mem_keptParts hpart)
    have hparts : ty.stripped.parts = ty.keptParts.map (Part.map id Ty.stripped) := by
      rw [Ty.stripped_eq, Ty.parts_mapParts, Ty.parts_unimported]
    rw [Ty.nodes_eq, hparts, Ty.keptNodes_eq, List.map_cons, List.flatMap_map, List.map_flatMap,
      List.flatMap_congr hnodes]
    rfl

/-! ## Names in a stripped declaration -/

namespace Item

/-- The nodes directly in a declaration that stay when it is stripped. -/
def keptNodes (item : Item) : List Node :=
  item.parts.flatMap Part.keptNodes

/-- The names that a declaration still binds when it is stripped. -/
def keptBoundNames (item : Item) : List String :=
  item.keptNodes.filterMap Node.bound?

/-- The names that a declaration referred to before it is stripped, where they stay. -/
def keptReferences (item : Item) : List String :=
  item.keptNodes.filterMap Node.reference?

/-- The names that take the place of import types when a declaration is stripped. -/
def importedNames (item : Item) : List String :=
  item.keptNodes.filterMap Node.importedName?

/-- The nodes that stay of a statement are nodes of the statement. -/
theorem mem_nodes_of_mem_keptNodes {item : Item} {node : Node} (h : node ∈ item.keptNodes) :
    node ∈ item.nodes := by
  obtain ⟨part, hpart, h⟩ := List.mem_flatMap.1 h
  exact mem_nodes_of_part hpart (Part.mem_nodes_of_mem_keptNodes h)

/-- A reference that stays was one before. -/
theorem mem_references_of_mem_keptReferences {item : Item} {name : String}
    (h : name ∈ item.keptReferences) : name ∈ item.references := by
  rw [keptReferences, List.mem_filterMap] at h
  obtain ⟨node, hnode, hname⟩ := h
  exact List.mem_filterMap.2 ⟨node, mem_nodes_of_mem_keptNodes hnode, hname⟩

/-- The nodes of a stripped declaration are its kept nodes, stripped. -/
theorem nodes_strip {item : Item} {levels : Nat} (hnested : item.nested = [])
    (h : item.nodes.length ≤ levels) :
    (item.mapParts id (importRevision.ty levels)).nodes =
      .item item.name? :: item.keptNodes.map Node.stripped := by
  rw [Item.nodes_eq, List.length_cons, List.length_append] at h
  have hnodes : ∀ part ∈ item.parts,
      (part.map id (importRevision.ty levels)).nodes = part.keptNodes.map Node.stripped := by
    intro part hpart
    refine Part.nodes_map_of_type ?_
    rintro t rfl
    have := Part.nodes_length_le hpart
    rw [Part.nodes_type] at this
    rw [importRevision_ty (by omega), Ty.nodes_stripped]
  rw [Item.nodes_eq, name?_mapParts, parts_mapParts, nested_mapParts, hnested, List.flatMap_map,
    List.flatMap_congr hnodes, keptNodes, List.map_flatMap]
  simp [Item.nodesList]

end Item

namespace Node

@[simp] theorem bound?_mapParts (f : Ty → Ty) (ty : Ty) :
    bound? (.type (ty.mapParts id f)) = bound? (.type ty) := by
  cases ty <;> rfl

@[simp] theorem reference?_mapParts (f : Ty → Ty) (ty : Ty) :
    reference? (.type (ty.mapParts id f)) = reference? (.type ty) := by
  cases ty <;> rfl

/-- An import by name is not itself a reference. -/
theorem reference?_eq_none_of_import {node : Node} {name : String}
    (h : node.importedName? = some name) : node.reference? = none := by
  revert h
  fun_cases importedName? node with
  | case1 => exact fun _ => rfl
  | case2 => exact nofun

/-- Stripping changes no binder. -/
theorem bound?_stripped (node : Node) : node.stripped.bound? = node.bound? := by
  cases node with
  | type ty =>
    rw [stripped, Ty.stripped_eq, bound?_mapParts]
    cases ty with
    | imported module qualifier args isTypeof =>
      cases qualifier <;> cases isTypeof <;> rfl
    | _ => rfl
  | _ => rfl

/-- A stripped node refers to what it referred to before, or to what it was an import of. -/
theorem reference?_stripped (node : Node) :
    node.stripped.reference? = node.reference?.or node.importedName? := by
  cases node with
  | type ty =>
    rw [stripped, Ty.stripped_eq, reference?_mapParts]
    cases ty with
    | imported module qualifier args isTypeof =>
      cases qualifier <;> cases isTypeof <;> rfl
    | _ => rfl
  | _ => rfl

/-- What stripped nodes refer to. -/
theorem mem_references_stripped {nodes : List Node} {name : String} :
    name ∈ (nodes.map stripped).filterMap reference? ↔
      name ∈ nodes.filterMap reference? ∨ name ∈ nodes.filterMap importedName? := by
  rw [List.filterMap_map]
  simp only [Function.comp_def, reference?_stripped, List.mem_filterMap, Option.or_eq_some_iff]
  constructor
  · rintro ⟨node, hnode, hname | ⟨-, hname⟩⟩
    · exact .inl ⟨node, hnode, hname⟩
    · exact .inr ⟨node, hnode, hname⟩
  · rintro (⟨node, hnode, hname⟩ | ⟨node, hnode, hname⟩)
    · exact ⟨node, hnode, .inl hname⟩
    · exact ⟨node, hnode, .inr ⟨reference?_eq_none_of_import hname, hname⟩⟩

end Node

namespace Item

variable {item : Item} {levels : Nat}

/-- What a stripped declaration binds. -/
theorem boundNames_strip (hnested : item.nested = []) (h : item.nodes.length ≤ levels) :
    (item.mapParts id (importRevision.ty levels)).boundNames = item.keptBoundNames := by
  rw [boundNames, nodes_strip hnested h, List.filterMap_cons_none rfl, List.filterMap_map]
  exact List.filterMap_congr fun node _ => node.bound?_stripped

/-- What a stripped declaration refers to. -/
theorem mem_references_strip (hnested : item.nested = []) (h : item.nodes.length ≤ levels)
    {name : String} :
    name ∈ (item.mapParts id (importRevision.ty levels)).references ↔
      name ∈ item.keptReferences ∨ name ∈ item.importedNames := by
  rw [references, nodes_strip hnested h, List.filterMap_cons_none rfl]
  exact Node.mem_references_stripped

end Item

end DeclLayer
