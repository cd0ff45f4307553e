import DeclLayer.Tree.Node

/-!
# The parts of a type

A type holds type parameters and other types one level down. `Ty.parts` lists them in the order of
`Ty.nodes`, so the nodes of a type are the type itself followed by the nodes of its parts
(`Ty.nodes_eq`), a part has fewer nodes than the whole (`Ty.nodes_length_lt`), and a statement
about all types goes from the parts to the whole (`Ty.parts_induction`). `Item.parts` does the same
for what a statement holds outside the statements in it, and `Item.nested_induction` goes from the
statements in a statement to that statement.
-/

namespace DeclLayer

/-- What a type or a statement holds one level down. -/
inductive Part where
  /-- A type parameter, by its name. -/
  | param (name : String)
  | type (ty : Ty)

namespace Part

/-- The nodes of a part. -/
def nodes : Part → List Node
  | .param name => [.param name]
  | .type ty => ty.nodes

end Part

/-! ## Listing -/

/-- The part that a type is, if it is not missing. -/
def Ty.optionParts (ty : Option Ty) : List Part :=
  ty.toList.map .type

/-- The parts of a type parameter: its name, its constraint and its default. -/
def TypeParam.parts (p : TypeParam Ty) : List Part :=
  .param p.name :: (Ty.optionParts p.constraint ++ Ty.optionParts p.default)

/-- The parts of a parameter. -/
def Param.parts (p : Param Ty) : List Part :=
  Ty.optionParts p.type

/-- The parts of a signature. -/
def Signature.parts (s : Signature Ty) : List Part :=
  s.typeParams.flatMap TypeParam.parts ++ Ty.optionParts s.thisType ++ s.params.flatMap Param.parts

/-- The parts of an index signature. -/
def IndexSignature.parts (i : IndexSignature Ty) : List Part :=
  [.type i.keyType, .type i.value]

/-- The parts of a call or construct signature. -/
def Callable.parts (c : Callable Ty) : List Part :=
  c.signature.parts ++ Ty.optionParts c.returns

/-- The parts of a member. -/
def Member.parts : Member Ty → List Part
  | .property p => [.type p.type]
  | .method d => d.signature.parts ++ Ty.optionParts d.returns
  | .call c => c.parts
  | .construct c => c.parts
  | .index i => i.parts

/-- The type parameters and types directly inside a type. -/
def Ty.parts : Ty → List Part
  | .named _ args => args.map .type
  | .union types => types.map .type
  | .intersection types => types.map .type
  | .function signature returns => signature.parts ++ [.type returns]
  | .construct _ signature returns => signature.parts ++ [.type returns]
  | .object members => members.flatMap Member.parts
  | .array element => [.type element]
  | .tuple elements => elements.map fun e => .type e.type
  | .keyOf type => [.type type]
  | .readonly type => [.type type]
  | .index target key => [.type target, .type key]
  | .conditional check bound whenTrue whenFalse =>
    [.type check, .type bound, .type whenTrue, .type whenFalse]
  | .mapped _ keys nameType value _ _ =>
    .type keys :: (Ty.optionParts nameType ++ [.type value])
  | .imported _ _ args _ => args.map .type
  | .predicate _ _ type => Ty.optionParts type
  | .paren type => [.type type]
  | .primitive _ | .string _ | .number _ | .boolean _ | .typeOf _ | .uniqueSymbol | .infer _
  | .template _ | .this => []

/-- The parts of a class member. -/
def ClassMember.parts : ClassMember → List Part
  | .property p => Ty.optionParts p.type
  | .method d => d.signature.parts ++ Ty.optionParts d.returns
  | .constructor c => c.params.flatMap Param.parts
  | .index i => i.parts

/-- The type parameters and types directly inside a statement, outside the statements in it. -/
def Item.parts : Item → List Part
  | .function d => d.signature.parts ++ Ty.optionParts d.returns
  | .interface d =>
    d.typeParams.flatMap TypeParam.parts ++ d.bases.map .type ++ d.members.flatMap Member.parts
  | .typeAlias d => d.typeParams.flatMap TypeParam.parts ++ [.type d.type]
  | .cls d =>
    d.typeParams.flatMap TypeParam.parts ++ Ty.optionParts d.base ++ d.interfaces.map .type ++
      d.members.flatMap ClassMember.parts
  | .var d => Ty.optionParts d.type
  | .enum _ | .space _ | .ambient _ | .exports _ | .imports _ | .verbatim _ => []

/-- The statements directly inside a statement. -/
def Item.nested : Item → List Item
  | .space b => b.items
  | .ambient b => b.items
  | _ => []

/-! ## The types among parts -/

section

variable {P : Ty → Prop} {ps qs : List Part}

/-- A type in front: it and the types behind it satisfy the condition. -/
theorem Part.forall_cons {t : Ty} :
    (∀ u, .type u ∈ .type t :: ps → P u) ↔ P t ∧ ∀ u, .type u ∈ ps → P u := by
  simp only [List.mem_cons, Part.type.injEq, or_imp, forall_and, forall_eq]

/-- A type parameter in front is no type, so the condition says nothing of it. -/
theorem Part.forall_param {name : String} :
    (∀ u, .type u ∈ .param name :: ps → P u) ↔ ∀ u, .type u ∈ ps → P u := by
  simp only [List.mem_cons, reduceCtorEq, false_or]

/-- A condition on the types of a single part is the condition on that type. -/
theorem Part.forall_singleton {t : Ty} : (∀ u, .type u ∈ [Part.type t] → P u) ↔ P t := by
  simp only [List.mem_singleton, Part.type.injEq, forall_eq]

/-- A condition on the types of two lists of parts is the condition on the types of each of them. -/
theorem Part.forall_append :
    (∀ u, .type u ∈ ps ++ qs → P u) ↔ (∀ u, .type u ∈ ps → P u) ∧ ∀ u, .type u ∈ qs → P u := by
  simp only [List.mem_append, or_imp, forall_and]

/-- A condition on the types in the parts of all elements is the condition on those of each element.
-/
theorem Part.forall_flatMap {α : Type} {parts : α → List Part} {xs : List α} :
    (∀ u, .type u ∈ xs.flatMap parts → P u) ↔ ∀ x ∈ xs, ∀ u, .type u ∈ parts x → P u := by
  simp only [List.mem_flatMap]
  exact ⟨fun h x hx u hu => h u ⟨x, hx, hu⟩, fun h u ⟨x, hx, hu⟩ => h x hx u hu⟩

/-- A condition on the types that elements have is the condition on the type of each element. -/
theorem Part.forall_map {α : Type} {type : α → Ty} {xs : List α} :
    (∀ u, .type u ∈ xs.map (fun x => Part.type (type x)) → P u) ↔ ∀ x ∈ xs, P (type x) := by
  simp only [List.mem_map, Part.type.injEq]
  exact ⟨fun h x hx => h _ ⟨x, hx, rfl⟩, fun h u ⟨x, hx, hu⟩ => hu ▸ h x hx⟩

/-- The types among the parts of an optional type are the type, if there is one. -/
theorem Ty.forall_optionParts {type : Option Ty} :
    (∀ u, .type u ∈ Ty.optionParts type → P u) ↔ ∀ u ∈ type, P u := by
  rw [Ty.optionParts, Part.forall_map]
  simp only [Option.mem_toList, Option.mem_def]

/-- The types directly in a type parameter are its constraint and its default. -/
theorem TypeParam.forall_parts {p : TypeParam Ty} :
    (∀ u, .type u ∈ p.parts → P u) ↔ (∀ u ∈ p.constraint, P u) ∧ ∀ u ∈ p.default, P u := by
  rw [TypeParam.parts, Part.forall_param, Part.forall_append, Ty.forall_optionParts,
    Ty.forall_optionParts]

/-- The type directly in a parameter is the one it is annotated with. -/
theorem Param.forall_parts {p : Param Ty} :
    (∀ u, .type u ∈ p.parts → P u) ↔ ∀ u ∈ p.type, P u :=
  Ty.forall_optionParts

/-- The types directly in a signature are those in its type parameters, the type of `this` and those
in its parameters. -/
theorem Signature.forall_parts {s : Signature Ty} :
    (∀ u, .type u ∈ s.parts → P u) ↔ (∀ p ∈ s.typeParams, ∀ u, .type u ∈ p.parts → P u) ∧
      (∀ u ∈ s.thisType, P u) ∧ ∀ p ∈ s.params, ∀ u, .type u ∈ p.parts → P u := by
  rw [Signature.parts, Part.forall_append, Part.forall_append, Part.forall_flatMap,
    Part.forall_flatMap, Ty.forall_optionParts, and_assoc]

/-- The types directly in an index signature are the type of the key and that of the value. -/
theorem IndexSignature.forall_parts {i : IndexSignature Ty} :
    (∀ u, .type u ∈ i.parts → P u) ↔ P i.keyType ∧ P i.value := by
  rw [IndexSignature.parts, Part.forall_cons, Part.forall_singleton]

/-- The types directly in a callable are those in its signature and the type it returns. -/
theorem Callable.forall_parts {c : Callable Ty} :
    (∀ u, .type u ∈ c.parts → P u) ↔
      (∀ u, .type u ∈ c.signature.parts → P u) ∧ ∀ u ∈ c.returns, P u := by
  rw [Callable.parts, Part.forall_append, Ty.forall_optionParts]

namespace Ty

/-- The types directly in a function type are those in its signature and the one it returns. -/
theorem forall_parts_function {s : Signature Ty} {returns : Ty} :
    (∀ u, .type u ∈ (Ty.function s returns).parts → P u) ↔
      (∀ u, .type u ∈ s.parts → P u) ∧ P returns := by
  rw [Ty.parts, Part.forall_append, Part.forall_singleton]

/-- The types directly in a constructor type are those in its signature and the one it returns. -/
theorem forall_parts_construct {isAbstract : Bool} {s : Signature Ty} {returns : Ty} :
    (∀ u, .type u ∈ (Ty.construct isAbstract s returns).parts → P u) ↔
      (∀ u, .type u ∈ s.parts → P u) ∧ P returns :=
  forall_parts_function

/-- The types directly in an indexed access are the target and the key. -/
theorem forall_parts_index {target key : Ty} :
    (∀ u, .type u ∈ (Ty.index target key).parts → P u) ↔ P target ∧ P key := by
  rw [Ty.parts, Part.forall_cons, Part.forall_singleton]

/-- The types directly in a conditional type are the one that is checked, its bound and the two
branches. -/
theorem forall_parts_conditional {check bound whenTrue whenFalse : Ty} :
    (∀ u, .type u ∈ (Ty.conditional check bound whenTrue whenFalse).parts → P u) ↔
      P check ∧ P bound ∧ P whenTrue ∧ P whenFalse := by
  rw [Ty.parts, Part.forall_cons, Part.forall_cons, Part.forall_cons, Part.forall_singleton]

/-- The types directly in a mapped type are that of the keys, the one that renames them and the
value. -/
theorem forall_parts_mapped {key : String} {keys : Ty} {nameType : Option Ty} {value : Ty}
    {readonlyMod optionalMod : Option MappedModifier} :
    (∀ u, .type u ∈ (Ty.mapped key keys nameType value readonlyMod optionalMod).parts → P u) ↔
      P keys ∧ (∀ u ∈ nameType, P u) ∧ P value := by
  rw [Ty.parts, Part.forall_cons, Part.forall_append, Ty.forall_optionParts, Part.forall_singleton]

end Ty

end

/-! ## Nodes -/

@[simp] theorem Part.nodes_param (name : String) : (Part.param name).nodes = [.param name] := rfl

@[simp] theorem Part.nodes_type (ty : Ty) : (Part.type ty).nodes = ty.nodes := rfl

/-- The nodes of some types, by their parts. -/
theorem Ty.nodesList_eq (tys : List Ty) :
    Ty.nodesList tys = (tys.map .type).flatMap Part.nodes := by
  induction tys with
  | nil => rfl
  | cons ty tys ih => simp [Ty.nodesList, ih]

/-- The nodes of an optional type, by its parts. -/
theorem Ty.nodesOption_eq (ty : Option Ty) :
    Ty.nodesOption ty = (Ty.optionParts ty).flatMap Part.nodes := by
  cases ty with
  | none => rfl
  | some ty => simp [Ty.nodesOption, Ty.optionParts]

/-- The nodes of type parameters, by their parts. -/
theorem Ty.nodesTypeParams_eq (ps : List (TypeParam Ty)) :
    Ty.nodesTypeParams ps = (ps.flatMap TypeParam.parts).flatMap Part.nodes := by
  induction ps with
  | nil => rfl
  | cons p ps ih =>
    obtain ⟨name, constraint, default⟩ := p
    simp [Ty.nodesTypeParams, TypeParam.parts, Ty.nodesOption_eq, ih]

/-- The nodes of parameters, by their parts. -/
theorem Ty.nodesParams_eq (ps : List (Param Ty)) :
    Ty.nodesParams ps = (ps.flatMap Param.parts).flatMap Part.nodes := by
  induction ps with
  | nil => rfl
  | cons p ps ih =>
    obtain ⟨name, type, optional, rest⟩ := p
    simp [Ty.nodesParams, Param.parts, Ty.nodesOption_eq, ih]

/-- The nodes of a signature, by its parts. -/
theorem Ty.nodesSignature_eq (s : Signature Ty) :
    Ty.nodesSignature s = s.parts.flatMap Part.nodes := by
  obtain ⟨typeParams, thisType, params⟩ := s
  simp [Ty.nodesSignature, Signature.parts, Ty.nodesTypeParams_eq, Ty.nodesOption_eq,
    Ty.nodesParams_eq]

/-- The nodes of the elements of a tuple, by their types. -/
theorem Ty.nodesElements_eq (es : List (TupleElement Ty)) :
    Ty.nodesElements es = (es.map fun e => Part.type e.type).flatMap Part.nodes := by
  induction es with
  | nil => rfl
  | cons e es ih =>
    obtain ⟨type, name, optional, rest⟩ := e
    simp [Ty.nodesElements, ih]

/-- The nodes of members, by their parts. -/
theorem Ty.nodesMembers_eq (ms : List (Member Ty)) :
    Ty.nodesMembers ms = (ms.flatMap Member.parts).flatMap Part.nodes := by
  induction ms with
  | nil => rfl
  | cons m ms ih =>
    cases m with
    | property p => simp [Ty.nodesMembers, Member.parts, ih]
    | method d => simp [Ty.nodesMembers, Member.parts, Ty.nodesSignature_eq, Ty.nodesOption_eq, ih]
    | call c | construct c =>
      simp [Ty.nodesMembers, Member.parts, Callable.parts, Ty.nodesSignature_eq,
        Ty.nodesOption_eq, ih]
    | index i => simp [Ty.nodesMembers, Member.parts, IndexSignature.parts, ih]

/-- The nodes of a type are the type itself, then the nodes of its parts in order. -/
theorem Ty.nodes_eq (ty : Ty) : ty.nodes = .type ty :: ty.parts.flatMap Part.nodes := by
  cases ty <;>
    simp [Ty.nodes, Ty.parts, Ty.nodesList_eq, Ty.nodesOption_eq, Ty.nodesSignature_eq,
      Ty.nodesElements_eq, Ty.nodesMembers_eq]

/-- The nodes of a class member, by its parts. -/
theorem ClassMember.nodes_eq (m : ClassMember) : m.nodes = m.parts.flatMap Part.nodes := by
  cases m <;>
    simp [ClassMember.nodes, ClassMember.parts, IndexSignature.parts, Ty.nodesOption_eq,
      Ty.nodesSignature_eq, Ty.nodesParams_eq]

/-- The nodes of a statement are the statement itself, then the nodes of its parts, then those of
the statements in it. A statement has parts or statements in it, never both. -/
theorem Item.nodes_eq (item : Item) :
    item.nodes =
      .item item.name? :: (item.parts.flatMap Part.nodes ++ Item.nodesList item.nested) := by
  have hmembers : ClassMember.nodes = fun m => m.parts.flatMap Part.nodes :=
    funext ClassMember.nodes_eq
  cases item <;>
    simp [Item.nodes, Item.parts, Item.nested, Item.name?, Item.nodesList, Ty.nodesList_eq,
      Ty.nodesOption_eq, Ty.nodesSignature_eq, Ty.nodesTypeParams_eq, Ty.nodesMembers_eq,
      hmembers, List.flatMap_assoc]

/-- The nodes of a part of a type are nodes of the type. -/
theorem Ty.mem_nodes_of_part {ty : Ty} {part : Part} (h : part ∈ ty.parts) {node : Node}
    (hnode : node ∈ part.nodes) : node ∈ ty.nodes := by
  rw [Ty.nodes_eq]
  exact List.mem_cons_of_mem _ (List.mem_flatMap.2 ⟨part, h, hnode⟩)

/-- The nodes of a part of a statement are nodes of the statement. -/
theorem Item.mem_nodes_of_part {item : Item} {part : Part} (h : part ∈ item.parts) {node : Node}
    (hnode : node ∈ part.nodes) : node ∈ item.nodes := by
  rw [Item.nodes_eq]
  exact List.mem_cons_of_mem _ (List.mem_append_left _ (List.mem_flatMap.2 ⟨part, h, hnode⟩))

/-- The nodes of statements are those of each of them, in order. -/
theorem Item.nodesList_eq (items : List Item) :
    Item.nodesList items = items.flatMap Item.nodes := by
  induction items with
  | nil => rfl
  | cons item items ih => rw [Item.nodesList, ih, List.flatMap_cons]

/-- A node of some statements is a node of one of them. -/
theorem Item.mem_nodesList {items : List Item} {node : Node} :
    node ∈ Item.nodesList items ↔ ∃ item ∈ items, node ∈ item.nodes := by
  rw [Item.nodesList_eq, List.mem_flatMap]

/-- The nodes of a statement inside a block are nodes of the block. -/
theorem Item.mem_nodes_of_nested {item inner : Item} (h : inner ∈ item.nested) {node : Node}
    (hnode : node ∈ inner.nodes) : node ∈ item.nodes := by
  rw [Item.nodes_eq]
  exact List.mem_cons_of_mem _ (List.mem_append_right _ (Item.mem_nodesList.2 ⟨inner, h, hnode⟩))

/-- A part has at most as many nodes as all parts together. -/
theorem Part.nodes_length_le {part : Part} {parts : List Part} (h : part ∈ parts) :
    part.nodes.length ≤ (parts.flatMap Part.nodes).length := by
  obtain ⟨before, after, rfl⟩ := List.append_of_mem h
  simp only [List.flatMap_append, List.flatMap_cons, List.length_append]
  omega

/-- A part of a type has fewer nodes than the type. -/
theorem Part.nodes_length_lt {part : Part} {ty : Ty} (h : part ∈ ty.parts) :
    part.nodes.length < ty.nodes.length := by
  have := Part.nodes_length_le h
  rw [Ty.nodes_eq ty, List.length_cons]
  omega

/-- A type inside a type has fewer nodes. -/
theorem Ty.nodes_length_lt {t ty : Ty} (h : .type t ∈ ty.parts) :
    t.nodes.length < ty.nodes.length :=
  Part.nodes_length_lt h

/-- What holds of a type as soon as it holds of the types directly inside it holds of all types. -/
theorem Ty.parts_induction {P : Ty → Prop}
    (step : ∀ ty : Ty, (∀ t, .type t ∈ ty.parts → P t) → P ty) (ty : Ty) : P ty := by
  induction h : ty.nodes.length using Nat.strongRecOn generalizing ty with
  | ind n ih =>
    subst h
    exact step ty fun t ht => ih t.nodes.length (Ty.nodes_length_lt ht) t rfl

/-! ## Nested statements -/

/-- A statement has at most as many nodes as the list it stands in. -/
theorem Item.nodes_length_le {item : Item} {items : List Item} (h : item ∈ items) :
    item.nodes.length ≤ (Item.nodesList items).length := by
  induction items with
  | nil => cases h
  | cons other items ih =>
    rw [Item.nodesList, List.length_append]
    rcases List.mem_cons.1 h with rfl | h
    · omega
    · have := ih h
      omega

/-- What holds of a statement as soon as it holds of the statements directly inside it holds of all
statements. -/
theorem Item.nested_induction {P : Item → Prop}
    (step : ∀ item : Item, (∀ inner ∈ item.nested, P inner) → P item) (item : Item) : P item := by
  induction h : item.nodes.length using Nat.strongRecOn generalizing item with
  | ind n ih =>
    subst h
    refine step item fun inner hinner => ih inner.nodes.length ?_ inner rfl
    have hle := Item.nodes_length_le hinner
    rw [Item.nodes_eq item, List.length_cons, List.length_append]
    omega

end DeclLayer
