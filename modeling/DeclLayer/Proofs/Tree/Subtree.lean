import DeclLayer.Proofs.Tree.Parts

/-!
# Subtrees and their addresses

A statement is a tree: it holds type parameters, types and statements, a type parameter holds the
types of its constraint and its default, and a type holds type parameters and types. `Subtree` is a
place of such a tree with all that is below it, and `Subtree.children` lists what is one level down.
A subtree is found by its address, the numbers of the children on the way to it (`Subtree.at?`).

The nodes of a statement are read off its addresses in lexicographic order, in which an address
comes before all longer ones that begin with it (`Subtree.exists_places`).
-/

namespace DeclLayer

/-! ## One level down -/

/-- A type parameter or a type with all that it holds. -/
inductive Held where
  | param (p : TypeParam Ty)
  | type (ty : Ty)

/-- The type that is held, if it is not missing. -/
def Ty.optionHeld (ty : Option Ty) : List Held :=
  ty.toList.map .type

/-- What a type parameter holds. -/
def TypeParam.held (p : TypeParam Ty) : List Held :=
  Ty.optionHeld p.constraint ++ Ty.optionHeld p.default

/-- What a parameter holds. -/
def Param.held (p : Param Ty) : List Held :=
  Ty.optionHeld p.type

/-- What a signature holds. -/
def Signature.held (s : Signature Ty) : List Held :=
  s.typeParams.map .param ++ Ty.optionHeld s.thisType ++ s.params.flatMap Param.held

/-- What a signature and the type of its result hold, if the result has a type. -/
def Signature.heldWith (s : Signature Ty) (returns : Option Ty) : List Held :=
  s.held ++ Ty.optionHeld returns

/-- What an index signature holds. -/
def IndexSignature.held (i : IndexSignature Ty) : List Held :=
  [.type i.keyType, .type i.value]

/-- What a member holds. -/
def Member.held : Member Ty → List Held
  | .property p => [.type p.type]
  | .method d => d.signature.heldWith d.returns
  | .call c => c.signature.heldWith c.returns
  | .construct c => c.signature.heldWith c.returns
  | .index i => i.held

/-- The type parameters and types one level down in a type. -/
def Ty.held : Ty → List Held
  | .named _ args => args.map .type
  | .union types => types.map .type
  | .intersection types => types.map .type
  | .function signature returns => signature.heldWith (some returns)
  | .construct _ signature returns => signature.heldWith (some returns)
  | .object members => members.flatMap Member.held
  | .array element => [.type element]
  | .tuple elements => elements.map fun e => .type e.type
  | .keyOf type => [.type type]
  | .readonly type => [.type type]
  | .index target key => [.type target, .type key]
  | .conditional check bound whenTrue whenFalse =>
    [.type check, .type bound, .type whenTrue, .type whenFalse]
  | .mapped _ keys nameType value _ _ => .type keys :: (Ty.optionHeld nameType ++ [.type value])
  | .imported _ _ args _ => args.map .type
  | .predicate _ _ type => Ty.optionHeld type
  | .paren type => [.type type]
  | .primitive _ | .string _ | .number _ | .boolean _ | .typeOf _ | .uniqueSymbol | .infer _
  | .template _ | .this => []

/-- What a class member holds. -/
def ClassMember.held : ClassMember → List Held
  | .property p => Ty.optionHeld p.type
  | .method d => d.signature.heldWith d.returns
  | .constructor c => c.params.flatMap Param.held
  | .index i => i.held

/-- The type parameters and types one level down in a statement. -/
def Item.held : Item → List Held
  | .function d => d.signature.heldWith d.returns
  | .interface d => d.typeParams.map .param ++ d.bases.map .type ++ d.members.flatMap Member.held
  | .typeAlias d => d.typeParams.map .param ++ [.type d.type]
  | .cls d =>
    d.typeParams.map .param ++ Ty.optionHeld d.base ++ d.interfaces.map .type ++
      d.members.flatMap ClassMember.held
  | .var d => Ty.optionHeld d.type
  | .enum _ | .space _ | .ambient _ | .exports _ | .imports _ | .verbatim _ => []

/-- A statement, a type parameter or a type with all that it holds. -/
inductive Subtree where
  | item (item : Item)
  | held (h : Held)

namespace Subtree

/-- The node that a subtree is. -/
def node : Subtree → Node
  | .item i => .item i.name?
  | .held (.param p) => .param p.name
  | .held (.type ty) => .type ty

/-- The subtrees one level down, in order. -/
def children : Subtree → List Subtree
  | .item i => i.held.map .held ++ i.nested.map .item
  | .held (.param p) => p.held.map .held
  | .held (.type ty) => ty.held.map .held

/-- The subtree with the given address: the first number tells the child, the others are the address
in that child. -/
def at? : List Nat → Subtree → Option Subtree
  | [], s => some s
  | i :: address, s => s.children[i]?.bind (at? address)

end Subtree

/-! ## Nodes of a subtree -/

/-- What is held, as parts: a type parameter is its name with the types in it. -/
def Held.parts : Held → List Part
  | .param p => p.parts
  | .type ty => [.type ty]

/-- The nodes of what is held. -/
def Held.nodes (h : Held) : List Node :=
  h.parts.flatMap Part.nodes

@[simp] theorem Ty.flatMap_parts_optionHeld (ty : Option Ty) :
    (Ty.optionHeld ty).flatMap Held.parts = Ty.optionParts ty := by
  cases ty <;> rfl

@[simp] theorem Ty.flatMap_parts_elements {α : Type} (l : List α) (f : α → Ty) :
    (l.map fun a => Held.type (f a)).flatMap Held.parts = l.map fun a => Part.type (f a) := by
  rw [List.flatMap_map, List.map_eq_flatMap]
  rfl

@[simp] theorem Ty.flatMap_parts_types (tys : List Ty) :
    (tys.map Held.type).flatMap Held.parts = tys.map Part.type :=
  Ty.flatMap_parts_elements tys id

@[simp] theorem TypeParam.flatMap_parts_params (ps : List (TypeParam Ty)) :
    (ps.map Held.param).flatMap Held.parts = ps.flatMap TypeParam.parts := by
  rw [List.flatMap_map]
  rfl

@[simp] theorem Param.flatMap_parts_held (p : Param Ty) : p.held.flatMap Held.parts = p.parts := by
  rw [Param.held, Ty.flatMap_parts_optionHeld, Param.parts]

@[simp] theorem Signature.flatMap_parts_held (s : Signature Ty) :
    s.held.flatMap Held.parts = s.parts := by
  simp [Signature.held, Signature.parts, List.flatMap_assoc]

@[simp] theorem Signature.flatMap_parts_heldWith (s : Signature Ty) (returns : Option Ty) :
    (s.heldWith returns).flatMap Held.parts = s.parts ++ Ty.optionParts returns := by
  simp [Signature.heldWith]

@[simp] theorem Member.flatMap_parts_held (m : Member Ty) :
    m.held.flatMap Held.parts = m.parts := by
  cases m <;> simp [Member.held, Member.parts, Callable.parts, IndexSignature.held,
    IndexSignature.parts, Held.parts]

/-- What a type holds has the parts of the type. -/
theorem Ty.flatMap_parts_held (ty : Ty) : ty.held.flatMap Held.parts = ty.parts := by
  cases ty <;> simp [Ty.held, Ty.parts, Ty.optionParts, List.flatMap_assoc, Held.parts]

@[simp] theorem ClassMember.flatMap_parts_held (m : ClassMember) :
    m.held.flatMap Held.parts = m.parts := by
  cases m <;> simp [ClassMember.held, ClassMember.parts, IndexSignature.held,
    IndexSignature.parts, Held.parts, List.flatMap_assoc]

/-- What a statement holds outside the statements in it has the parts of the statement. -/
theorem Item.flatMap_parts_held (item : Item) : item.held.flatMap Held.parts = item.parts := by
  cases item <;> simp [Item.held, Item.parts, List.flatMap_assoc, Held.parts]

namespace Subtree

/-- The nodes of a subtree. -/
def nodes : Subtree → List Node
  | .item i => i.nodes
  | .held h => h.nodes

/-- The nodes of a subtree are the subtree itself, then the nodes of its children in order. -/
theorem nodes_eq (s : Subtree) : s.nodes = s.node :: s.children.flatMap nodes := by
  have hheld (hs : List Held) : (hs.map Subtree.held).flatMap nodes =
      (hs.flatMap Held.parts).flatMap Part.nodes := by
    rw [List.flatMap_map, List.flatMap_assoc]
    rfl
  cases s with
  | item i =>
    have hitems (items : List Item) :
        (items.map Subtree.item).flatMap nodes = Item.nodesList items := by
      induction items with
      | nil => rfl
      | cons item items ih => exact congrArg (item.nodes ++ ·) ih
    rw [nodes, Item.nodes_eq, node, children, List.flatMap_append, hheld, hitems,
      Item.flatMap_parts_held]
  | held h =>
    cases h with
    | param p =>
      rw [nodes, node, children, hheld, TypeParam.held, List.flatMap_append,
        Ty.flatMap_parts_optionHeld, Ty.flatMap_parts_optionHeld]
      rfl
    | type ty =>
      rw [nodes, node, children, hheld, Ty.flatMap_parts_held, Held.nodes, Held.parts,
        List.flatMap_singleton, Part.nodes_type, Ty.nodes_eq]

/-- A subtree directly below another one has fewer nodes. -/
theorem nodes_length_lt {s t : Subtree} (h : t ∈ s.children) :
    t.nodes.length < s.nodes.length := by
  obtain ⟨before, after, hchildren⟩ := List.append_of_mem h
  rw [nodes_eq s, hchildren]
  simp only [List.length_cons, List.flatMap_append, List.flatMap_cons, List.length_append]
  omega

/-- What holds of a subtree as soon as it holds of its children holds of all subtrees. -/
theorem induction {P : Subtree → Prop} (step : ∀ s : Subtree, (∀ t ∈ s.children, P t) → P s)
    (s : Subtree) : P s := by
  induction h : s.nodes.length using Nat.strongRecOn generalizing s with
  | ind n ih =>
    subst h
    exact step s fun t ht => ih t.nodes.length (nodes_length_lt ht) t rfl

/-! ## Places in order -/

/-- The places of a tree with the subtrees there, each place once and in lexicographic order, in
which a place comes before all places below it. -/
structure Enumerates (s : Subtree) (places : List (List Nat × Subtree)) : Prop where
  increasing : (places.map Prod.fst).Pairwise (· < ·)
  mem_iff : ∀ a t, (a, t) ∈ places ↔ s.at? a = some t

/-- The places of neighbouring trees that are numbered from `k` on, with their nodes. -/
theorem exists_places_forest (k : Nat) {cs : List Subtree}
    (h : ∀ c ∈ cs, ∃ places, c.Enumerates places ∧ places.map (·.2.node) = c.nodes) :
    ∃ places : List (List Nat × Subtree), (places.map Prod.fst).Pairwise (· < ·) ∧
      (∀ a t, (a, t) ∈ places ↔
        ∃ i b c, a = (k + i) :: b ∧ cs[i]? = some c ∧ c.at? b = some t) ∧
      places.map (·.2.node) = cs.flatMap nodes := by
  induction cs generalizing k with
  | nil => exact ⟨[], .nil, fun a t => ⟨nofun, by rintro ⟨i, b, c, -, ⟨⟩, -⟩⟩, rfl⟩
  | cons c cs ih =>
    obtain ⟨hc, hcs⟩ := List.forall_mem_cons.1 h
    obtain ⟨first, hfirst, hfirstNodes⟩ := hc
    obtain ⟨others, hincreasing, hmem, hothersNodes⟩ := ih (k + 1) hcs
    refine ⟨first.map (fun place => (k :: place.1, place.2)) ++ others, ?_, fun a t => ?_, ?_⟩
    · rw [List.map_append, List.map_map, List.pairwise_append]
      refine ⟨?_, hincreasing, fun a ha a' ha' => ?_⟩
      · have hcons : (first.map Prod.fst).Pairwise fun a b => k :: a < k :: b :=
          hfirst.increasing.imp fun hlt => List.cons_lt_cons_self.2 hlt
        rw [List.pairwise_map] at hcons ⊢
        exact hcons
      · obtain ⟨⟨b, t⟩, -, rfl⟩ := List.mem_map.1 ha
        obtain ⟨⟨b', t'⟩, hplace, rfl⟩ := List.mem_map.1 ha'
        obtain ⟨i, b', c', rfl, -⟩ := (hmem b' t').1 hplace
        exact List.cons_lt_cons_iff.2 (.inl (by omega))
    · rw [List.mem_append, hmem]
      constructor
      · rintro (hplace | ⟨i, b, c', rfl, hc', hb⟩)
        · obtain ⟨⟨b, t⟩, hb, ⟨⟩⟩ := List.mem_map.1 hplace
          exact ⟨0, b, c, rfl, rfl, (hfirst.mem_iff b t).1 hb⟩
        · exact ⟨i + 1, b, c', by rw [Nat.add_assoc, Nat.add_comm 1], hc', hb⟩
      · rintro ⟨i, b, c', rfl, hc', hb⟩
        cases i with
        | zero =>
          cases hc'
          exact .inl (List.mem_map.2 ⟨(b, t), (hfirst.mem_iff b t).2 hb, rfl⟩)
        | succ i => exact .inr ⟨i, b, c', by rw [Nat.add_assoc, Nat.add_comm 1], hc', hb⟩
    · rw [List.map_append, List.map_map, List.flatMap_cons, hothersNodes, ← hfirstNodes]
      rfl

/-- The nodes of a tree stand at its places, each place once and before the places below it. -/
theorem exists_places (s : Subtree) :
    ∃ places, s.Enumerates places ∧ places.map (·.2.node) = s.nodes := by
  induction s using induction with
  | step s ih =>
    obtain ⟨below, hincreasing, hmem, hnodes⟩ := exists_places_forest 0 ih
    refine ⟨([], s) :: below, ⟨?_, fun a t => ?_⟩, ?_⟩
    · rw [List.map_cons, List.pairwise_cons]
      refine ⟨fun a ha => ?_, hincreasing⟩
      obtain ⟨⟨a, t⟩, hplace, rfl⟩ := List.mem_map.1 ha
      obtain ⟨i, b, c, rfl, -⟩ := (hmem a t).1 hplace
      exact List.nil_lt_cons _ _
    · rw [List.mem_cons, hmem]
      cases a with
      | nil =>
        rw [at?, Option.some.injEq, Prod.mk.injEq]
        constructor
        · rintro (⟨-, rfl⟩ | ⟨i, b, c, ⟨⟩, -⟩)
          rfl
        · rintro rfl
          exact .inl ⟨rfl, rfl⟩
      | cons i a =>
        rw [at?, Option.bind_eq_some_iff]
        constructor
        · rintro (heq | ⟨j, b, c, heq, hc, hb⟩)
          · exact absurd (congrArg Prod.fst heq) (List.cons_ne_nil i a)
          · rw [Nat.zero_add] at heq
            obtain ⟨rfl, rfl⟩ := List.cons.inj heq
            exact ⟨c, hc, hb⟩
        · rintro ⟨c, hc, ha⟩
          exact .inr ⟨i, a, c, by rw [Nat.zero_add], hc, ha⟩
    · rw [List.map_cons, hnodes, nodes_eq s]

end Subtree

end DeclLayer
