import DeclLayer.Tree.Item

/-!
# Nodes of a tree

`Item.nodes` lists the nested statements, type parameters and types of a statement in the order in
which a reader meets them: a parent comes before what it holds, and what stands first in the text
comes first, except that the type of `this` stands between the type parameters and the parameters.

The listing is the only walk over a tree that does not change it; what a tree refers to or binds is
read off the listing.
-/

namespace DeclLayer

/-- A node of a tree. -/
inductive Node where
  /-- A statement, by its declared name. -/
  | item (name : Option String)
  /-- A type parameter, by its name. -/
  | param (name : String)
  | type (ty : Ty)

/-! ## Types -/

mutual

/-- A type and everything in it, parents first. -/
def Ty.nodes : Ty → List Node
  | .named name args => .type (.named name args) :: Ty.nodesList args
  | .primitive p => [.type (.primitive p)]
  | .string value => [.type (.string value)]
  | .number text => [.type (.number text)]
  | .boolean value => [.type (.boolean value)]
  | .union types => .type (.union types) :: Ty.nodesList types
  | .intersection types => .type (.intersection types) :: Ty.nodesList types
  | .function signature returns =>
    .type (.function signature returns) :: (Ty.nodesSignature signature ++ returns.nodes)
  | .construct isAbstract signature returns =>
    .type (.construct isAbstract signature returns) ::
      (Ty.nodesSignature signature ++ returns.nodes)
  | .object members => .type (.object members) :: Ty.nodesMembers members
  | .array element => .type (.array element) :: element.nodes
  | .tuple elements => .type (.tuple elements) :: Ty.nodesElements elements
  | .typeOf name => [.type (.typeOf name)]
  | .keyOf type => .type (.keyOf type) :: type.nodes
  | .readonly type => .type (.readonly type) :: type.nodes
  | .uniqueSymbol => [.type .uniqueSymbol]
  | .index target key => .type (.index target key) :: (target.nodes ++ key.nodes)
  | .conditional check bound whenTrue whenFalse =>
    .type (.conditional check bound whenTrue whenFalse) ::
      (check.nodes ++ bound.nodes ++ whenTrue.nodes ++ whenFalse.nodes)
  | .mapped key keys nameType value readonlyMod optionalMod =>
    .type (.mapped key keys nameType value readonlyMod optionalMod) ::
      (keys.nodes ++ Ty.nodesOption nameType ++ value.nodes)
  | .infer name => [.type (.infer name)]
  | .template raw => [.type (.template raw)]
  | .imported module qualifier args isTypeof =>
    .type (.imported module qualifier args isTypeof) :: Ty.nodesList args
  | .predicate asserts param type =>
    .type (.predicate asserts param type) :: Ty.nodesOption type
  | .paren type => .type (.paren type) :: type.nodes
  | .this => [.type .this]

/-- The nodes of some types in order. -/
def Ty.nodesList : List Ty → List Node
  | [] => []
  | ty :: tys => ty.nodes ++ Ty.nodesList tys

/-- The nodes of a type that may be missing. -/
def Ty.nodesOption : Option Ty → List Node
  | none => []
  | some ty => ty.nodes

/-- The nodes of type parameters: each one before its constraint and its default. -/
def Ty.nodesTypeParams : List (TypeParam Ty) → List Node
  | [] => []
  | ⟨name, constraint, default⟩ :: ps =>
    .param name :: (Ty.nodesOption constraint ++ Ty.nodesOption default ++ Ty.nodesTypeParams ps)

/-- The nodes of the types of parameters. -/
def Ty.nodesParams : List (Param Ty) → List Node
  | [] => []
  | ⟨_, type, _, _⟩ :: ps => Ty.nodesOption type ++ Ty.nodesParams ps

/-- The nodes of a signature. -/
def Ty.nodesSignature : Signature Ty → List Node
  | ⟨typeParams, thisType, params⟩ =>
    Ty.nodesTypeParams typeParams ++ Ty.nodesOption thisType ++ Ty.nodesParams params

/-- The nodes of the types of tuple elements. -/
def Ty.nodesElements : List (TupleElement Ty) → List Node
  | [] => []
  | ⟨type, _, _, _⟩ :: es => type.nodes ++ Ty.nodesElements es

/-- The nodes of members. -/
def Ty.nodesMembers : List (Member Ty) → List Node
  | [] => []
  | .property ⟨_, _, type, _, _⟩ :: ms => type.nodes ++ Ty.nodesMembers ms
  | .method ⟨_, _, _, signature, returns, _⟩ :: ms =>
    Ty.nodesSignature signature ++ Ty.nodesOption returns ++ Ty.nodesMembers ms
  | .call ⟨_, signature, returns⟩ :: ms =>
    Ty.nodesSignature signature ++ Ty.nodesOption returns ++ Ty.nodesMembers ms
  | .construct ⟨_, signature, returns⟩ :: ms =>
    Ty.nodesSignature signature ++ Ty.nodesOption returns ++ Ty.nodesMembers ms
  | .index ⟨_, _, keyType, value, _⟩ :: ms =>
    keyType.nodes ++ value.nodes ++ Ty.nodesMembers ms

end

/-! ## Statements -/

/-- The nodes of a class member. -/
def ClassMember.nodes : ClassMember → List Node
  | .property p => Ty.nodesOption p.type
  | .method m => Ty.nodesSignature m.signature ++ Ty.nodesOption m.returns
  | .constructor c => Ty.nodesParams c.params
  | .index i => i.keyType.nodes ++ i.value.nodes

mutual

/-- A statement and everything in it, parents first. -/
def Item.nodes : Item → List Node
  | .function d =>
    .item (some d.name) :: (Ty.nodesSignature d.signature ++ Ty.nodesOption d.returns)
  | .interface d =>
    .item (some d.name) ::
      (Ty.nodesTypeParams d.typeParams ++ Ty.nodesList d.bases ++ Ty.nodesMembers d.members)
  | .typeAlias d => .item (some d.name) :: (Ty.nodesTypeParams d.typeParams ++ d.type.nodes)
  | .cls d =>
    .item (some d.name) ::
      (Ty.nodesTypeParams d.typeParams ++ Ty.nodesOption d.base ++ Ty.nodesList d.interfaces ++
        d.members.flatMap ClassMember.nodes)
  | .var d => .item (some d.name) :: Ty.nodesOption d.type
  | .enum d => [.item (some d.name)]
  | .space ⟨_, _, name, items⟩ => .item (some name) :: Item.nodesList items
  | .ambient ⟨_, _, name, items⟩ => .item (some name) :: Item.nodesList items
  | .exports _ => [.item none]
  | .imports _ => [.item none]
  | .verbatim _ => [.item none]

/-- The nodes of statements in order. -/
def Item.nodesList : List Item → List Node
  | [] => []
  | item :: items => item.nodes ++ Item.nodesList items

end

end DeclLayer
