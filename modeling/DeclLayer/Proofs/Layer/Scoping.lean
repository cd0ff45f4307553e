import DeclLayer.Layer.Reference
import DeclLayer.Proofs.Tree.Parts

/-!
# Scopes

A name is bound in a part of a declaration: a type parameter in the declaration, method, signature
or function type that declares it, an inferred type in the true branch of the conditional type whose
bound infers it, the key of a mapped type in that type. `Ty.Occurs` and `Item.Occurs` say that a
reference stands in a tree together with the names that are bound where it stands.

The check for unresolved references knows no scopes: it takes a name that a declaration binds
somewhere for bound everywhere in it. All that it reports is free where it stands
(`Item.Occurs.not_mem_of_not_bound`), but a free reference is passed over if its name is bound at
another place (`mem_findUnresolved_iff`, `findUnresolved_passes_over`).
-/

namespace DeclLayer

/-! ## The scopes of parts -/

/-- A type one level down, with the names that are bound there and not outside. -/
structure Scoped where
  bound : List String
  type : Ty

/-- The same place, with further names bound around it. -/
def Scoped.under (names : List String) (s : Scoped) : Scoped :=
  ⟨s.bound ++ names, s.type⟩

namespace Part

/-- The name that a part binds, if it is a type parameter. -/
def param? : Part → Option String
  | .param name => some name
  | .type _ => none

/-- The type that a part is, if it is one. -/
def type? : Part → Option Ty
  | .param _ => none
  | .type ty => some ty

/-- Parts that stand together, such as a signature with its result: the type parameters among them
are bound in all of them, their own constraints included. -/
def together (parts : List Part) : List Scoped :=
  (parts.filterMap type?).map (Scoped.mk (parts.filterMap param?))

/-- The parts of members, each member with a scope of its own. -/
def apart (members : List (List Part)) : List Scoped :=
  members.flatMap together

/-- The parts of a declaration: its type parameters are bound in all it holds, and each of its
members has a scope of its own in that scope. -/
def declared (params : List (TypeParam Ty)) (head : List Part) (members : List (List Part)) :
    List Scoped :=
  together (params.flatMap TypeParam.parts ++ head) ++
    (apart members).map (Scoped.under (params.map TypeParam.name))

end Part

/-- The name that a node infers. -/
def Node.inferred? : Node → Option String
  | .type (.infer name) => some name
  | _ => none

/-- The types directly inside a type. What the bound of a conditional type infers is bound in its
true branch, and the key of a mapped type in all of it. -/
def Ty.scopedParts : Ty → List Scoped
  | .object members => Part.apart (members.map Member.parts)
  | .conditional check bound whenTrue whenFalse =>
    [⟨[], check⟩, ⟨[], bound⟩, ⟨bound.nodes.filterMap Node.inferred?, whenTrue⟩, ⟨[], whenFalse⟩]
  | .mapped key keys nameType value readonlyMod optionalMod =>
    (Part.together (Ty.mapped key keys nameType value readonlyMod optionalMod).parts).map
      (Scoped.under [key])
  | ty => Part.together ty.parts

/-- The types directly inside a statement. -/
def Item.scopedParts : Item → List Scoped
  | .interface d => Part.declared d.typeParams (d.bases.map .type) (d.members.map Member.parts)
  | .cls d =>
    Part.declared d.typeParams (Ty.optionParts d.base ++ d.interfaces.map .type)
      (d.members.map ClassMember.parts)
  | item => Part.together item.parts

/-! ## References with their scopes -/

/-- A reference to a name stands in a type, under binders of the type for the names in the scope. -/
inductive Ty.Occurs : Ty → List String → String → Prop where
  | here {ty : Ty} {name : String} : (Node.type ty).reference? = some name → ty.Occurs [] name
  | inside {ty : Ty} {s : Scoped} {scope : List String} {name : String} :
    s ∈ ty.scopedParts → s.type.Occurs scope name → ty.Occurs (scope ++ s.bound) name

/-- A reference to a name stands in a statement, under binders for the names in the scope. -/
inductive Item.Occurs : Item → List String → String → Prop where
  | type {item : Item} {s : Scoped} {scope : List String} {name : String} :
    s ∈ item.scopedParts → s.type.Occurs scope name → item.Occurs (scope ++ s.bound) name
  | nested {item inner : Item} {scope : List String} {name : String} :
    inner ∈ item.nested → inner.Occurs scope name → item.Occurs scope name

/-! ## The types in scopes are the parts -/

namespace Part

@[simp] theorem types_together (parts : List Part) :
    (together parts).map Scoped.type = parts.filterMap type? := by
  rw [together, List.map_map]
  exact List.map_id _

/-- A type among the types of some parts is one of the parts. -/
theorem mem_types {parts : List Part} {ty : Ty} :
    ty ∈ parts.filterMap type? ↔ .type ty ∈ parts := by
  rw [List.mem_filterMap]
  constructor
  · rintro ⟨part, hpart, htype⟩
    cases part with
    | param => cases htype
    | type => exact Option.some.inj htype ▸ hpart
  · exact fun h => ⟨_, h, rfl⟩

/-- What is bound in parts that stand together are type parameters among them. -/
theorem param_mem_of_together {parts : List Part} {s : Scoped} (h : s ∈ together parts)
    {name : String} (hname : name ∈ s.bound) : .param name ∈ parts := by
  obtain ⟨ty, -, rfl⟩ := List.mem_map.1 h
  obtain ⟨part, hpart, hbinds⟩ := List.mem_filterMap.1 hname
  cases part with
  | param => exact Option.some.inj hbinds ▸ hpart
  | type => cases hbinds

/-- Scopes of their own leave the types of members as they are. -/
theorem types_apart (members : List (List Part)) :
    (apart members).map Scoped.type = members.flatten.filterMap type? := by
  rw [apart, List.map_flatMap, List.flatten_eq_flatMap, List.filterMap_flatMap]
  simp only [types_together, id_eq]

/-- A name bound around a type in a member is a type parameter of some member. -/
theorem param_mem_of_apart {members : List (List Part)} {s : Scoped} (h : s ∈ apart members)
    {name : String} (hname : name ∈ s.bound) : .param name ∈ members.flatten := by
  obtain ⟨parts, hparts, hs⟩ := List.mem_flatMap.1 h
  exact List.mem_flatten.2 ⟨parts, hparts, param_mem_of_together hs hname⟩

/-- Further names bound around some places leave the types there. -/
theorem types_under (names : List String) (ss : List Scoped) :
    (ss.map (Scoped.under names)).map Scoped.type = ss.map Scoped.type := by
  rw [List.map_map]
  rfl

section

variable {params : List (TypeParam Ty)} {head : List Part} {members : List (List Part)}

/-- The types of a declaration with their scopes are its types. -/
theorem types_declared :
    (declared params head members).map Scoped.type =
      (params.flatMap TypeParam.parts ++ head ++ members.flatten).filterMap type? := by
  rw [declared, List.map_append, types_under, types_together, types_apart, ← List.filterMap_append]

/-- A name bound around a type of a declaration is a type parameter in it. -/
theorem param_mem_of_declared {s : Scoped} (h : s ∈ declared params head members) {name : String}
    (hname : name ∈ s.bound) :
    .param name ∈ params.flatMap TypeParam.parts ++ head ++ members.flatten := by
  rcases List.mem_append.1 h with h | h
  · exact List.mem_append_left _ (param_mem_of_together h hname)
  · obtain ⟨inner, hinner, rfl⟩ := List.mem_map.1 h
    rcases List.mem_append.1 hname with hname | hname
    · exact List.mem_append_right _ (param_mem_of_apart hinner hname)
    · obtain ⟨p, hp, rfl⟩ := List.mem_map.1 hname
      have hparam : .param p.name ∈ params.flatMap TypeParam.parts :=
        List.mem_flatMap.2 ⟨p, hp, List.mem_cons_self⟩
      exact List.mem_append_left _ (List.mem_append_left _ hparam)

end

end Part

/-- The types directly inside a type with their scopes are the types among its parts. -/
theorem Ty.types_scopedParts (ty : Ty) :
    ty.scopedParts.map Scoped.type = ty.parts.filterMap Part.type? := by
  unfold Ty.scopedParts
  split
  · rw [Part.types_apart, ← List.flatMap_def]
    rfl
  · rfl
  · rw [Part.types_under, Part.types_together]
  · rw [Part.types_together]

/-- The types directly inside a statement with their scopes are the types among its parts. -/
theorem Item.types_scopedParts (item : Item) :
    item.scopedParts.map Scoped.type = item.parts.filterMap Part.type? := by
  unfold Item.scopedParts
  split
  · rw [Part.types_declared, ← List.flatMap_def]
    rfl
  · rw [Part.types_declared, ← List.flatMap_def, ← List.append_assoc]
    rfl
  · rw [Part.types_together]

/-- A type with its scope is one of the parts of the type around it. -/
theorem Ty.type_mem_parts {ty : Ty} {s : Scoped} (h : s ∈ ty.scopedParts) :
    .type s.type ∈ ty.parts := by
  rw [← Part.mem_types, ← Ty.types_scopedParts]
  exact List.mem_map_of_mem h

/-- A type with its scope is one of the parts of the statement around it. -/
theorem Item.type_mem_parts {item : Item} {s : Scoped} (h : s ∈ item.scopedParts) :
    .type s.type ∈ item.parts := by
  rw [← Part.mem_types, ← Item.types_scopedParts]
  exact List.mem_map_of_mem h

/-- Every type among the parts of a type has a scope. -/
theorem Ty.exists_scoped {ty t : Ty} (h : .type t ∈ ty.parts) :
    ∃ s ∈ ty.scopedParts, s.type = t := by
  rwa [← Part.mem_types, ← Ty.types_scopedParts, List.mem_map] at h

/-- Every type among the parts of a statement has a scope. -/
theorem Item.exists_scoped {item : Item} {t : Ty} (h : .type t ∈ item.parts) :
    ∃ s ∈ item.scopedParts, s.type = t := by
  rwa [← Part.mem_types, ← Item.types_scopedParts, List.mem_map] at h

/-! ## A scope holds names that are bound somewhere -/

/-- A name is bound by one of some nodes. -/
def Node.Binds (nodes : List Node) (name : String) : Prop :=
  ∃ node ∈ nodes, node.bound? = some name

/-- A name in a scope inside a type is bound by a node of the type. -/
theorem Ty.binds_of_scopedParts {ty : Ty} {s : Scoped} (h : s ∈ ty.scopedParts) {name : String}
    (hname : name ∈ s.bound) : Node.Binds ty.nodes name := by
  have hparam (ty : Ty) (hpart : .param name ∈ ty.parts) : Node.Binds ty.nodes name :=
    ⟨.param name, Ty.mem_nodes_of_part hpart List.mem_cons_self, rfl⟩
  unfold Ty.scopedParts at h
  split at h
  · have hpart := Part.param_mem_of_apart h hname
    rw [← List.flatMap_def] at hpart
    exact hparam _ hpart
  · next check bound whenTrue whenFalse =>
    -- only the true branch has names of its own, those that the bound infers
    have hinferred : name ∈ bound.nodes.filterMap Node.inferred? := by
      simp only [List.mem_cons, List.not_mem_nil, or_false] at h
      rcases h with rfl | rfl | rfl | rfl
      · cases hname
      · cases hname
      · exact hname
      · cases hname
    obtain ⟨node, hnode, hinfers⟩ := List.mem_filterMap.1 hinferred
    have hpart : .type bound ∈ (Ty.conditional check bound whenTrue whenFalse).parts := by
      simp [Ty.parts]
    refine ⟨node, Ty.mem_nodes_of_part hpart hnode, ?_⟩
    unfold Node.inferred? at hinfers
    split at hinfers
    · exact hinfers
    · cases hinfers
  · next key keys nameType value readonlyMod optionalMod =>
    obtain ⟨inner, hinner, rfl⟩ := List.mem_map.1 h
    rcases List.mem_append.1 hname with hname | hname
    · exact hparam _ (Part.param_mem_of_together hinner hname)
    · rw [List.mem_singleton.1 hname, Ty.nodes_eq]
      exact ⟨_, List.mem_cons_self, rfl⟩
  · exact hparam _ (Part.param_mem_of_together h hname)

/-- A name in a scope inside a statement is bound by a node of the statement. -/
theorem Item.binds_of_scopedParts {item : Item} {s : Scoped} (h : s ∈ item.scopedParts)
    {name : String} (hname : name ∈ s.bound) : Node.Binds item.nodes name := by
  have hparam (item : Item) (hpart : .param name ∈ item.parts) : Node.Binds item.nodes name :=
    ⟨.param name, Item.mem_nodes_of_part hpart List.mem_cons_self, rfl⟩
  unfold Item.scopedParts at h
  split at h
  · have hpart := Part.param_mem_of_declared h hname
    rw [← List.flatMap_def] at hpart
    exact hparam _ hpart
  · have hpart := Part.param_mem_of_declared h hname
    rw [← List.flatMap_def, ← List.append_assoc] at hpart
    exact hparam _ hpart
  · exact hparam _ (Part.param_mem_of_together h hname)

/-! ## References stand in scopes -/

/-- The reference is a node of the type, and what is bound around it is bound by nodes. -/
theorem Ty.Occurs.nodes {ty : Ty} {scope : List String} {name : String}
    (h : ty.Occurs scope name) :
    (∃ node ∈ ty.nodes, node.reference? = some name) ∧ ∀ b ∈ scope, Node.Binds ty.nodes b := by
  induction h with
  | @here ty name href =>
    refine ⟨⟨.type ty, ?_, href⟩, nofun⟩
    rw [Ty.nodes_eq]
    exact List.mem_cons_self
  | @inside ty s scope name hs _ ih =>
    obtain ⟨⟨node, hnode, href⟩, hbinds⟩ := ih
    have hnodes {node : Node} (hnode : node ∈ s.type.nodes) : node ∈ ty.nodes :=
      Ty.mem_nodes_of_part (Ty.type_mem_parts hs) hnode
    refine ⟨⟨node, hnodes hnode, href⟩, fun b hb => ?_⟩
    rcases List.mem_append.1 hb with hb | hb
    · obtain ⟨binder, hbinder, hname⟩ := hbinds b hb
      exact ⟨binder, hnodes hbinder, hname⟩
    · exact Ty.binds_of_scopedParts hs hb

/-- Every reference among the nodes of a type stands in some scope. -/
theorem Ty.exists_occurs {ty : Ty} {node : Node} (hnode : node ∈ ty.nodes) {name : String}
    (href : node.reference? = some name) : ∃ scope, ty.Occurs scope name := by
  induction ty using Ty.parts_induction with
  | step ty ih =>
    rw [Ty.nodes_eq] at hnode
    rcases List.mem_cons.1 hnode with rfl | hnode
    · exact ⟨[], .here href⟩
    · obtain ⟨part, hpart, hnode⟩ := List.mem_flatMap.1 hnode
      cases part with
      | param => rw [List.mem_singleton.1 hnode] at href; cases href
      | type t =>
        obtain ⟨scope, hoccurs⟩ := ih t hpart hnode
        obtain ⟨s, hs, rfl⟩ := Ty.exists_scoped hpart
        exact ⟨_, .inside hs hoccurs⟩

namespace Item

variable {item : Item} {scope : List String} {name : String}

/-- A reference in a statement is one of its nodes, and what its scope holds is bound by nodes too.
-/
theorem Occurs.nodes (h : item.Occurs scope name) :
    (∃ node ∈ item.nodes, node.reference? = some name) ∧ ∀ b ∈ scope, Node.Binds item.nodes b := by
  induction h with
  | @type item s scope name hs h =>
    obtain ⟨⟨node, hnode, href⟩, hbinds⟩ := h.nodes
    have hnodes {node : Node} (hnode : node ∈ s.type.nodes) : node ∈ item.nodes :=
      mem_nodes_of_part (type_mem_parts hs) hnode
    refine ⟨⟨node, hnodes hnode, href⟩, fun b hb => ?_⟩
    rcases List.mem_append.1 hb with hb | hb
    · obtain ⟨binder, hbinder, hname⟩ := hbinds b hb
      exact ⟨binder, hnodes hbinder, hname⟩
    · exact binds_of_scopedParts hs hb
  | @nested item inner scope name hinner _ ih =>
    obtain ⟨⟨node, hnode, href⟩, hbinds⟩ := ih
    refine ⟨⟨node, mem_nodes_of_nested hinner hnode, href⟩, fun b hb => ?_⟩
    obtain ⟨binder, hbinder, hname⟩ := hbinds b hb
    exact ⟨binder, mem_nodes_of_nested hinner hbinder, hname⟩

/-- Every reference among the nodes of a statement stands there with some scope. -/
theorem exists_occurs {node : Node} (hnode : node ∈ item.nodes)
    (href : node.reference? = some name) : ∃ scope, item.Occurs scope name := by
  induction item using Item.nested_induction with
  | step item ih =>
    rw [Item.nodes_eq] at hnode
    rcases List.mem_cons.1 hnode with rfl | hnode
    · cases href
    · rcases List.mem_append.1 hnode with hnode | hnode
      · obtain ⟨part, hpart, hnode⟩ := List.mem_flatMap.1 hnode
        cases part with
        | param => rw [List.mem_singleton.1 hnode] at href; cases href
        | type t =>
          obtain ⟨scope, hoccurs⟩ := Ty.exists_occurs hnode href
          obtain ⟨s, hs, rfl⟩ := exists_scoped hpart
          exact ⟨_, .type hs hoccurs⟩
      · obtain ⟨inner, hinner, hnode⟩ := mem_nodesList.1 hnode
        obtain ⟨scope, hoccurs⟩ := ih inner hinner hnode
        exact ⟨scope, .nested hinner hoccurs⟩

/-- A statement refers to the names that occur in it. -/
theorem mem_references_iff : name ∈ item.references ↔ ∃ scope, item.Occurs scope name := by
  rw [references, List.mem_filterMap]
  constructor
  · rintro ⟨node, hnode, href⟩
    exact exists_occurs hnode href
  · rintro ⟨scope, h⟩
    exact h.nodes.1

/-- A name that a statement binds nowhere is free wherever it occurs. -/
theorem Occurs.not_mem_of_not_bound (h : item.Occurs scope name) {head : String}
    (hbound : head ∉ item.boundNames) : head ∉ scope := by
  intro hscope
  obtain ⟨node, hnode, hname⟩ := h.nodes.2 head hscope
  exact hbound (List.mem_filterMap.2 ⟨node, hnode, hname⟩)

end Item

/-! ## What the check reports -/

/-- A reference that only the namespace can resolve stands in a declaration, and nothing around it
binds its name. -/
def Item.Escapes (index : Index) (p : Policy) (item : Item) (name : String) : Prop :=
  ∃ scope, item.Occurs scope name ∧ headWord name ∉ scope ∧
    index.contains (headWord name) = true ∧ p.hoistsName (headWord name) = false

/-- What is reported of a statement: a reference to an unresolved name, with the names that are
bound anywhere in the statement. -/
theorem Item.mem_unresolved {index : Index} {p : Policy} {item : Item} {d name : String} :
    ⟨d, name⟩ ∈ item.unresolved index p ↔
      item.name? = some d ∧ name ∈ item.references ∧
        isUnresolved index p item.boundNames name = true := by
  rw [Item.unresolved]
  cases item.name? with
  | none => simp
  | some declaration =>
    simp only [List.mem_map, List.mem_eraseDups, List.mem_filter, UnresolvedReference.mk.injEq,
      Option.some.injEq]
    constructor
    · rintro ⟨reference, hreference, rfl, rfl⟩
      exact ⟨rfl, hreference⟩
    · rintro ⟨rfl, hreference⟩
      exact ⟨name, hreference, rfl, rfl⟩

/-- What is reported of a declaration are the references that escape from it, except those whose
name it binds at another place. -/
theorem mem_findUnresolved_iff (index : Index) (p : Policy) (outer : List Item) (d name : String) :
    ⟨d, name⟩ ∈ findUnresolved index p outer ↔
      ∃ item ∈ outer, item.name? = some d ∧ item.Escapes index p name ∧
        headWord name ∉ item.boundNames := by
  rw [findUnresolved, List.mem_flatMap]
  refine exists_congr fun item => and_congr_right fun _ => ?_
  rw [Item.mem_unresolved, Item.mem_references_iff]
  refine and_congr_right fun _ => ?_
  simp only [isUnresolved, Bool.and_eq_true, Bool.not_eq_true', List.contains_eq_mem,
    decide_eq_false_iff_not]
  constructor
  · rintro ⟨⟨scope, hoccurs⟩, ⟨hbound, hkept⟩, hdeclared⟩
    exact ⟨⟨scope, hoccurs, hoccurs.not_mem_of_not_bound hbound, hdeclared, hkept⟩, hbound⟩
  · rintro ⟨⟨scope, hoccurs, -, hdeclared, hkept⟩, hbound⟩
    exact ⟨⟨scope, hoccurs⟩, ⟨hbound, hkept⟩, hdeclared⟩

/-- A method of `Options` has a type parameter `Kept`. The property beside it refers to the `Kept`
of the namespace. -/
def pickingOptions : Item :=
  .interface
    { docs := []
      modifiers := .plain
      name := "Options"
      typeParams := []
      bases := []
      members :=
        [.method
          { docs := []
            name := "pick"
            kind := .method
            signature :=
              ⟨[⟨"Kept", none, none⟩], none, [⟨"key", some (.named "Kept" []), false, false⟩]⟩
            returns := some (.primitive .void)
            optional := false },
        .property ⟨[], "value", .named "Kept" [], false, false⟩] }

/-- The index of a namespace that declares `Kept`. -/
def keptIndex : Index :=
  .ofItems [.interface ⟨[], .plain, "Kept", [], [], []⟩]

/-- A reference that escapes is passed over if its name is bound at another place. -/
theorem findUnresolved_passes_over :
    pickingOptions.Escapes keptIndex .empty "Kept" ∧
      ⟨"Options", "Kept"⟩ ∉ findUnresolved keptIndex .empty [pickingOptions] := by
  have hparts : pickingOptions.scopedParts =
      [⟨["Kept"], .named "Kept" []⟩, ⟨["Kept"], .primitive .void⟩, ⟨[], .named "Kept" []⟩] := rfl
  have hvalue : ⟨[], .named "Kept" []⟩ ∈ pickingOptions.scopedParts := by
    rw [hparts]
    exact .tail _ (.tail _ (.head _))
  refine ⟨⟨[], .type hvalue (.here rfl), List.not_mem_nil, by decide, by decide⟩, fun h => ?_⟩
  obtain ⟨item, hitem, -, -, hbound⟩ := (mem_findUnresolved_iff _ _ _ _ _).1 h
  rw [List.mem_singleton.1 hitem] at hbound
  exact hbound (by decide)

end DeclLayer
