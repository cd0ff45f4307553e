import DeclLayer.Proofs.Layer.ImportType
import DeclLayer.Proofs.Tree.Walk

/-!
# Stripping import types, written out

`Item.byNameList` writes out what becomes of some statements when their import types are stripped:
each import by name gives way to the name, with its own type arguments stripped in the same way, and
everything else stays. It goes through a tree from the outside to the inside without any state, and
`Ty.byName_eq_stripped` says that the edit, which meets the arguments of an import only after it has
replaced the import, comes to the same.

The imports that are replaced are those among the kept nodes: the arguments of an import of a value
are gone before they are met. The edit counts them (`Item.itemEvents_importRevision`), none is left
(`Item.importedName?_byName`), and without imports by name there is nothing to replace and nothing
to count (`Item.byNameList_of_none`, `Item.replacedNamesList_of_none`). `stripImportTypes_exact`
puts this together.
-/

namespace DeclLayer

/-! ## Names in the place of imports -/

mutual

/-- A type with every import by name in it replaced by the name. An import of a value becomes the
type of that value, and loses its type arguments. -/
def Ty.byName : Ty → Ty
  | .imported _ (some qualifier) args isTypeof =>
    if isTypeof then .typeOf qualifier else .named qualifier (Ty.byNameList args)
  | .imported module none args isTypeof => .imported module none (Ty.byNameList args) isTypeof
  | .named name args => .named name (Ty.byNameList args)
  | .primitive p => .primitive p
  | .string value => .string value
  | .number text => .number text
  | .boolean value => .boolean value
  | .union types => .union (Ty.byNameList types)
  | .intersection types => .intersection (Ty.byNameList types)
  | .function signature returns => .function (Ty.byNameSignature signature) returns.byName
  | .construct isAbstract signature returns =>
    .construct isAbstract (Ty.byNameSignature signature) returns.byName
  | .object members => .object (Ty.byNameMembers members)
  | .array element => .array element.byName
  | .tuple elements => .tuple (Ty.byNameElements elements)
  | .typeOf name => .typeOf name
  | .keyOf type => .keyOf type.byName
  | .readonly type => .readonly type.byName
  | .uniqueSymbol => .uniqueSymbol
  | .index target key => .index target.byName key.byName
  | .conditional check bound whenTrue whenFalse =>
    .conditional check.byName bound.byName whenTrue.byName whenFalse.byName
  | .mapped key keys nameType value readonlyMod optionalMod =>
    .mapped key keys.byName (Ty.byNameOption nameType) value.byName readonlyMod optionalMod
  | .infer name => .infer name
  | .template raw => .template raw
  | .predicate asserts param type => .predicate asserts param (Ty.byNameOption type)
  | .paren type => .paren type.byName
  | .this => .this

/-- Types with names in the place of imports. -/
def Ty.byNameList : List Ty → List Ty
  | [] => []
  | ty :: tys => ty.byName :: Ty.byNameList tys

/-- A type that may be missing, with names in the place of imports. -/
def Ty.byNameOption : Option Ty → Option Ty
  | none => none
  | some ty => some ty.byName

/-- Type parameters with names in the place of imports. -/
def Ty.byNameTypeParams : List (TypeParam Ty) → List (TypeParam Ty)
  | [] => []
  | ⟨name, constraint, default⟩ :: ps =>
    ⟨name, Ty.byNameOption constraint, Ty.byNameOption default⟩ :: Ty.byNameTypeParams ps

/-- Parameters with names in the place of imports. -/
def Ty.byNameParams : List (Param Ty) → List (Param Ty)
  | [] => []
  | ⟨name, type, optional, rest⟩ :: ps =>
    ⟨name, Ty.byNameOption type, optional, rest⟩ :: Ty.byNameParams ps

/-- A signature with names in the place of imports. -/
def Ty.byNameSignature : Signature Ty → Signature Ty
  | ⟨typeParams, thisType, params⟩ =>
    ⟨Ty.byNameTypeParams typeParams, Ty.byNameOption thisType, Ty.byNameParams params⟩

/-- Tuple elements with names in the place of imports. -/
def Ty.byNameElements : List (TupleElement Ty) → List (TupleElement Ty)
  | [] => []
  | ⟨type, name, optional, rest⟩ :: es =>
    ⟨type.byName, name, optional, rest⟩ :: Ty.byNameElements es

/-- Members with names in the place of imports. -/
def Ty.byNameMembers : List (Member Ty) → List (Member Ty)
  | [] => []
  | .property ⟨docs, name, type, optional, isReadonly⟩ :: ms =>
    .property ⟨docs, name, type.byName, optional, isReadonly⟩ :: Ty.byNameMembers ms
  | .method ⟨docs, name, kind, signature, returns, optional⟩ :: ms =>
    .method ⟨docs, name, kind, Ty.byNameSignature signature, Ty.byNameOption returns, optional⟩ ::
      Ty.byNameMembers ms
  | .call ⟨docs, signature, returns⟩ :: ms =>
    .call ⟨docs, Ty.byNameSignature signature, Ty.byNameOption returns⟩ :: Ty.byNameMembers ms
  | .construct ⟨docs, signature, returns⟩ :: ms =>
    .construct ⟨docs, Ty.byNameSignature signature, Ty.byNameOption returns⟩ ::
      Ty.byNameMembers ms
  | .index ⟨docs, key, keyType, value, isReadonly⟩ :: ms =>
    .index ⟨docs, key, keyType.byName, value.byName, isReadonly⟩ :: Ty.byNameMembers ms

end

/-- A class member with names in the place of imports. -/
def ClassMember.byName : ClassMember → ClassMember
  | .property p => .property { p with type := Ty.byNameOption p.type }
  | .method m =>
    .method
      { m with signature := Ty.byNameSignature m.signature, returns := Ty.byNameOption m.returns }
  | .constructor c => .constructor { c with params := Ty.byNameParams c.params }
  | .index i => .index { i with keyType := i.keyType.byName, value := i.value.byName }

mutual

/-- A statement with names in the place of imports, also in the statements inside it. -/
def Item.byName : Item → Item
  | .function d =>
    .function
      { d with signature := Ty.byNameSignature d.signature, returns := Ty.byNameOption d.returns }
  | .interface d =>
    .interface
      { d with typeParams := Ty.byNameTypeParams d.typeParams
               bases := Ty.byNameList d.bases
               members := Ty.byNameMembers d.members }
  | .typeAlias d =>
    .typeAlias { d with typeParams := Ty.byNameTypeParams d.typeParams, type := d.type.byName }
  | .cls d =>
    .cls
      { d with typeParams := Ty.byNameTypeParams d.typeParams
               base := Ty.byNameOption d.base
               interfaces := Ty.byNameList d.interfaces
               members := d.members.map ClassMember.byName }
  | .var d => .var { d with type := Ty.byNameOption d.type }
  | .enum d => .enum d
  | .space ⟨docs, modifiers, name, items⟩ => .space ⟨docs, modifiers, name, Item.byNameList items⟩
  | .ambient ⟨docs, modifiers, name, items⟩ =>
    .ambient ⟨docs, modifiers, name, Item.byNameList items⟩
  | .exports x => .exports x
  | .imports x => .imports x
  | .verbatim text => .verbatim text

/-- Statements with names in the place of imports. -/
def Item.byNameList : List Item → List Item
  | [] => []
  | item :: items => item.byName :: Item.byNameList items

end

/-! ## One level -/

namespace Ty

/-- Types with names in the place of imports, one by one. -/
theorem byNameList_eq (tys : List Ty) : byNameList tys = tys.map byName := by
  induction tys with
  | nil => rfl
  | cons ty tys ih => rw [byNameList, ih, List.map_cons]

/-- A type that may be missing, changed if it is there. -/
theorem byNameOption_eq (ty : Option Ty) : byNameOption ty = ty.map byName := by
  cases ty <;> rfl

/-- Type parameters with the types in them changed. -/
theorem byNameTypeParams_eq (ps : List (TypeParam Ty)) :
    byNameTypeParams ps = ps.map (TypeParam.mapParts id byName) := by
  induction ps with
  | nil => rfl
  | cons p ps ih =>
    rw [byNameTypeParams, ih, List.map_cons, byNameOption_eq, byNameOption_eq, ← onOption_run,
      ← onOption_run]
    rfl

/-- Parameters with their types changed. -/
theorem byNameParams_eq (ps : List (Param Ty)) :
    byNameParams ps = ps.map fun p => (p.onParts (m := Id) fun t => pure t.byName).run := by
  induction ps with
  | nil => rfl
  | cons p ps ih =>
    rw [byNameParams, ih, List.map_cons, byNameOption_eq, ← onOption_run]
    rfl

/-- A signature with the types in it changed. -/
theorem byNameSignature_eq (s : Signature Ty) : byNameSignature s = s.mapParts id byName := by
  rw [byNameSignature, byNameTypeParams_eq, byNameParams_eq, byNameOption_eq, ← onOption_run]
  simp [Signature.mapParts, Signature.onParts, TypeParam.mapParts]

/-- Tuple elements with their types changed. -/
theorem byNameElements_eq (es : List (TupleElement Ty)) :
    byNameElements es = es.map fun e => { e with type := e.type.byName } := by
  induction es with
  | nil => rfl
  | cons e es ih => rw [byNameElements, ih, List.map_cons]

/-- Members with the types in them changed. -/
theorem byNameMembers_eq (ms : List (Member Ty)) :
    byNameMembers ms = ms.map (Member.mapParts id byName) := by
  induction ms with
  | nil => rfl
  | cons m ms ih =>
    cases m <;>
      rw [byNameMembers, ih, List.map_cons] <;>
      simp [Member.mapParts, Member.onParts, Callable.onParts, IndexSignature.onParts,
        byNameSignature_eq, Signature.mapParts, byNameOption_eq, onOption_run]

/-- The import that a type is comes first, and then its parts. -/
theorem byName_eq (ty : Ty) : ty.byName = ty.unimported.mapParts id byName := by
  have hmembers : byNameMembers = List.map (Member.mapParts id byName) := funext byNameMembers_eq
  cases ty with
  | imported module qualifier args isTypeof =>
    cases qualifier <;> cases isTypeof <;>
      simp [byName, unimported, mapParts, onParts, byNameList_eq]
  | _ =>
    simp [byName, unimported, mapParts, onParts, byNameList_eq, byNameOption_eq,
      byNameSignature_eq, byNameElements_eq, hmembers, Signature.mapParts, Member.mapParts,
      onOption_run]

/-- Writing names in the place of imports is what stripping does to a type. -/
theorem byName_eq_stripped (ty : Ty) : ty.byName = ty.stripped := by
  induction ty using Ty.parts_induction with
  | step ty ih =>
    rw [byName_eq, stripped_eq]
    refine mapParts_congr fun t ht => ih t ?_
    replace ht : .type t ∈ ty.unimported.parts := ht
    rw [parts_unimported] at ht
    exact mem_parts_of_mem_keptParts ht

/-- A type without imports by name stays as it is. -/
theorem byName_of_none {ty : Ty} (h : ∀ node ∈ ty.nodes, node.importedName? = none) :
    ty.byName = ty := by
  induction ty using Ty.parts_induction with
  | step ty ih =>
    rw [nodes_eq] at h
    obtain ⟨hty, hparts⟩ := List.forall_mem_cons.1 h
    have hself : ty.unimported = ty := by
      cases ty with
      | imported module qualifier args isTypeof =>
        cases qualifier with
        | none => rfl
        | some q => cases hty
      | _ => rfl
    have hbyName : ty.mapParts id byName = ty.mapParts id id :=
      mapParts_congr fun t ht =>
        ih t ht fun node hnode => hparts node (List.mem_flatMap.2 ⟨.type t, ht, hnode⟩)
    rw [byName_eq, hself, hbyName, mapParts_id]

end Ty

/-- A class member with the types in it changed. -/
theorem ClassMember.byName_eq (m : ClassMember) : m.byName = m.mapParts id Ty.byName := by
  cases m <;>
    simp [ClassMember.byName, ClassMember.mapParts, ClassMember.onParts, IndexSignature.onParts,
      Ty.byNameSignature_eq, Signature.mapParts, Ty.byNameOption_eq, Ty.onOption_run,
      Ty.byNameParams_eq]

namespace Item

/-- Statements with names in the place of imports, one by one. -/
theorem byNameList_eq (items : List Item) : byNameList items = items.map byName := by
  induction items with
  | nil => rfl
  | cons item items ih => rw [byNameList, ih, List.map_cons]

/-- A statement with the types in it changed, also in the statements nested in it. -/
theorem byName_eq (item : Item) : item.byName = item.mapParts id Ty.byName := by
  have hclassMembers : ClassMember.byName = ClassMember.mapParts id Ty.byName :=
    funext ClassMember.byName_eq
  induction item using Item.nested_induction with
  | step item ih =>
    cases item with
    | space b | ambient b =>
      obtain ⟨docs, modifiers, name, items⟩ := b
      have hitems : items.map byName = items.map (mapParts id Ty.byName) := List.map_congr_left ih
      rw [byName, mapParts, byNameList_eq, mapPartsList_eq, hitems]
    | function | interface | typeAlias | cls | var | enum | exports | imports | verbatim =>
      simp [byName, mapParts, hclassMembers, Ty.byNameList_eq, Ty.byNameOption_eq,
        Ty.byNameTypeParams_eq, Ty.byNameSignature_eq, Ty.byNameMembers_eq]

/-- A statement without imports by name stays as it is. -/
theorem byName_of_none {item : Item} (h : ∀ node ∈ item.nodes, node.importedName? = none) :
    item.byName = item := by
  have hself : item.mapParts id Ty.byName = item.mapParts id id := by
    induction item using Item.nested_induction with
    | step item ih =>
      refine mapParts_congr (fun t ht => Ty.byName_of_none fun node hnode => ?_) fun inner hinner =>
        ih inner hinner fun node hnode => h node (mem_nodes_of_nested hinner hnode)
      exact h node (mem_nodes_of_part ht hnode)
  rw [byName_eq, hself, mapParts_id]

/-! ## The imports that are replaced -/

mutual

/-- The names that take the place of imports in a statement, in order. -/
def replacedNames : Item → List String
  | .space ⟨_, _, _, items⟩ => replacedNamesList items
  | .ambient ⟨_, _, _, items⟩ => replacedNamesList items
  | item => item.importedNames

/-- The names that take the place of imports in some statements, in order. -/
def replacedNamesList : List Item → List String
  | [] => []
  | item :: items => item.replacedNames ++ replacedNamesList items

end

/-- The names that take the place of imports in some statements, one statement after the other. -/
theorem replacedNamesList_eq (items : List Item) :
    replacedNamesList items = items.flatMap replacedNames := by
  induction items with
  | nil => rfl
  | cons item items ih => rw [replacedNamesList, ih, List.flatMap_cons]

/-- The names that take the place of imports in a statement are those in its own types and those in
the statements nested in it. -/
theorem replacedNames_eq (item : Item) :
    item.replacedNames = item.importedNames ++ item.nested.flatMap replacedNames := by
  cases item <;>
    simp [replacedNames, nested, replacedNamesList_eq, importedNames, keptNodes, parts]

end Item

/-- The events in a part are its imports by name, if that is so for types. -/
theorem partEvents_importRevision {levels : Nat} {part : Part}
    (h : ∀ t, part = .type t →
      importRevision.tyEvents levels t = t.keptNodes.filterMap Node.importedName?) :
    importRevision.partEvents (importRevision.tyEvents levels) part =
      part.keptNodes.filterMap Node.importedName? := by
  cases part with
  | param name => rw [Part.keptNodes]; rfl
  | type t => rw [Part.keptNodes]; exact h t rfl

/-- The imports by name that an edit replaces in a type are those among its kept nodes. -/
theorem tyEvents_importRevision {levels : Nat} {ty : Ty} (h : ty.nodes.length ≤ levels) :
    importRevision.tyEvents levels ty = ty.keptNodes.filterMap Node.importedName? := by
  induction levels generalizing ty with
  | zero => simp [Ty.nodes_eq] at h
  | succ levels ih =>
    have hparts : ∀ part ∈ ty.keptParts,
        importRevision.partEvents (importRevision.tyEvents levels) part =
          part.keptNodes.filterMap Node.importedName? := by
      intro part hpart
      refine partEvents_importRevision ?_
      rintro t rfl
      have hlt := Ty.nodes_length_lt (Ty.mem_parts_of_mem_keptParts hpart)
      exact ih (by omega)
    have hevents : importRevision.events (.type ty) = (Node.type ty).importedName?.toList := rfl
    rw [Revision.tyEvents, hevents, Ty.keptNodes_eq, List.filterMap_cons, List.filterMap_flatMap]
    show _ ++ ty.unimported.parts.flatMap _ = _
    rw [Ty.parts_unimported, List.flatMap_congr hparts]
    cases (Node.type ty).importedName? <;> rfl

namespace Item

/-- The imports by name that an edit replaces in a statement. -/
theorem itemEvents_importRevision {levels : Nat} {item : Item} (h : item.nodes.length ≤ levels) :
    importRevision.itemEvents levels item = item.replacedNames := by
  induction item using Item.nested_induction with
  | step item ih =>
    rw [nodes_eq, List.length_cons, List.length_append] at h
    have hparts : ∀ part ∈ item.parts,
        importRevision.partEvents (importRevision.tyEvents levels) part =
          part.keptNodes.filterMap Node.importedName? := by
      intro part hpart
      refine partEvents_importRevision ?_
      rintro t rfl
      have hle := Part.nodes_length_le hpart
      rw [Part.nodes_type] at hle
      exact tyEvents_importRevision (by omega)
    have hnested : ∀ inner ∈ item.nested,
        importRevision.itemEvents levels inner = inner.replacedNames := by
      intro inner hinner
      have hle := nodes_length_le hinner
      exact ih inner hinner (by omega)
    rw [Revision.itemEvents_eq, Revision.itemsEvents_eq, List.flatMap_congr hparts,
      List.flatMap_congr hnested, replacedNames_eq, importedNames, keptNodes,
      List.filterMap_flatMap]
    rfl

end Item

/-! ## What is left -/

@[simp] theorem Node.importedName?_mapParts (f : Ty → Ty) (ty : Ty) :
    importedName? (.type (ty.mapParts id f)) = importedName? (.type ty) := by
  cases ty with
  | imported module qualifier => cases qualifier <;> rfl
  | _ => rfl

/-- A stripped node is no import by name. -/
theorem Node.importedName?_stripped (node : Node) : node.stripped.importedName? = none := by
  cases node with
  | type ty =>
    rw [stripped, Ty.stripped_eq, importedName?_mapParts]
    cases ty with
    | imported module qualifier args isTypeof =>
      cases qualifier <;> cases isTypeof <;> rfl
    | _ => rfl
  | _ => rfl

namespace Item

/-- The nodes of a statement with names in the place of imports: its kept nodes, stripped, and then
those of the statements in it. -/
theorem nodes_byName (item : Item) :
    item.byName.nodes = .item item.name? ::
      (item.keptNodes.map Node.stripped ++
        item.nested.flatMap fun inner => inner.byName.nodes) := by
  have hparts : ∀ part ∈ item.parts,
      (part.map id Ty.byName).nodes = part.keptNodes.map Node.stripped := by
    intro part _
    refine Part.nodes_map_of_type ?_
    rintro t rfl
    rw [Ty.byName_eq_stripped, Ty.nodes_stripped]
  have hnested : Item.byName = mapParts id Ty.byName := funext byName_eq
  rw [byName_eq, nodes_eq, name?_mapParts, parts_mapParts, nested_mapParts, nodesList_eq,
    List.flatMap_map, List.flatMap_map, List.flatMap_congr hparts, keptNodes, List.map_flatMap,
    hnested]

/-- A statement keeps no imports by name. -/
theorem importedName?_byName {item : Item} {node : Node} (hnode : node ∈ item.byName.nodes) :
    node.importedName? = none := by
  induction item using Item.nested_induction with
  | step item ih =>
    rw [nodes_byName] at hnode
    rcases List.mem_cons.1 hnode with rfl | hnode
    · rfl
    rcases List.mem_append.1 hnode with hnode | hnode
    · obtain ⟨kept, -, rfl⟩ := List.mem_map.1 hnode
      exact kept.importedName?_stripped
    · obtain ⟨inner, hinner, hnode⟩ := List.mem_flatMap.1 hnode
      exact ih inner hinner hnode

/-- No import by name is left over. -/
theorem importedName?_byNameList (items : List Item) :
    ∀ node ∈ nodesList (byNameList items), node.importedName? = none := by
  intro node hnode
  rw [byNameList_eq, nodesList_eq, List.flatMap_map] at hnode
  obtain ⟨item, -, hnode⟩ := List.mem_flatMap.1 hnode
  exact importedName?_byName hnode

/-- Statements without imports by name stay as they are. -/
theorem byNameList_of_none {items : List Item}
    (h : ∀ node ∈ nodesList items, node.importedName? = none) : byNameList items = items := by
  rw [byNameList_eq]
  refine (List.map_congr_left fun item hitem => ?_).trans (List.map_id items)
  exact byName_of_none fun node hnode => h node (mem_nodesList.2 ⟨item, hitem, hnode⟩)

/-- Without imports by name, none is replaced. -/
theorem replacedNames_of_none {item : Item} (h : ∀ node ∈ item.nodes, node.importedName? = none) :
    item.replacedNames = [] := by
  induction item using Item.nested_induction with
  | step item ih =>
    have hkept : item.importedNames = [] :=
      List.filterMap_eq_nil_iff.2 fun node hnode => h node (mem_nodes_of_mem_keptNodes hnode)
    have hnested : ∀ inner ∈ item.nested, inner.replacedNames = [] := fun inner hinner =>
      ih inner hinner fun node hnode => h node (mem_nodes_of_nested hinner hnode)
    rw [replacedNames_eq, hkept, List.nil_append, List.flatMap_eq_nil_iff]
    exact hnested

/-- Without imports by name no name takes their place. -/
theorem replacedNamesList_of_none {items : List Item}
    (h : ∀ node ∈ nodesList items, node.importedName? = none) : replacedNamesList items = [] := by
  rw [replacedNamesList_eq, List.flatMap_eq_nil_iff]
  exact fun item hitem =>
    replacedNames_of_none fun node hnode => h node (mem_nodesList.2 ⟨item, hitem, hnode⟩)

/-! ## Stripping -/

/-- Any number of levels that is large enough writes names in the place of imports. -/
theorem mapParts_importRevision {levels : Nat} {item : Item} (h : item.nodes.length ≤ levels) :
    item.mapParts id (importRevision.ty levels) = item.byName := by
  rw [byName_eq]
  induction item using Item.nested_induction with
  | step item ih =>
    rw [nodes_eq, List.length_cons, List.length_append] at h
    refine mapParts_congr (fun t ht => ?_) fun inner hinner => ?_
    · have hle := Part.nodes_length_le ht
      rw [Part.nodes_type] at hle
      rw [importRevision_ty (by omega), Ty.byName_eq_stripped]
    · have hle := nodes_length_le hinner
      exact ih inner hinner (by omega)

end Item

/-- Stripping the import types of some statements writes names in their place, and counts them. -/
theorem stripImportTypes_eq (items : List Item) :
    stripImportTypes items = (Item.byNameList items, (Item.replacedNamesList items).length) := by
  have hitems : (stripImportTypes items).1 = Item.byNameList items := by
    rw [stripImportTypes_fst, Item.byNameList_eq]
    exact List.map_congr_left fun item hitem =>
      Item.mapParts_importRevision (Item.nodes_length_le hitem)
  have hevents : importRevision.itemsEvents (Item.nodesList items).length items =
      Item.replacedNamesList items := by
    rw [Revision.itemsEvents_eq, Item.replacedNamesList_eq]
    exact List.flatMap_congr fun item hitem =>
      Item.itemEvents_importRevision (Item.nodes_length_le hitem)
  have hfold (names : List String) (n : Nat) :
      names.foldl (fun count _ => count + 1) n = n + names.length := by
    induction names generalizing n with
    | nil => rfl
    | cons name names ih => rw [List.foldl_cons, ih, List.length_cons]; omega
  have hcount : (stripImportTypes items).2 = (Item.replacedNamesList items).length := by
    rw [stripImportTypes,
      Item.editList_acts importStripper_carriesOut (Item.nodesList items).length items 0, hevents]
    exact (hfold _ 0).trans (Nat.zero_add _)
  exact Prod.ext hitems hcount

/-- Stripping the import types of some statements is exact. Everywhere in them, each import by name
gives way to the name, and nothing else changes; the count is the number of imports that are
replaced; no import by name is left; and stripping again changes nothing and counts nothing. -/
theorem stripImportTypes_exact (items : List Item) :
    stripImportTypes items = (Item.byNameList items, (Item.replacedNamesList items).length) ∧
    (∀ node ∈ Item.nodesList (stripImportTypes items).1, node.importedName? = none) ∧
    stripImportTypes (stripImportTypes items).1 = ((stripImportTypes items).1, 0) := by
  have hnone := Item.importedName?_byNameList items
  have hfirst : (stripImportTypes items).1 = Item.byNameList items :=
    congrArg Prod.fst (stripImportTypes_eq items)
  rw [hfirst]
  refine ⟨stripImportTypes_eq items, hnone, ?_⟩
  rw [stripImportTypes_eq, Item.byNameList_of_none hnone, Item.replacedNamesList_of_none hnone]
  rfl

end DeclLayer
