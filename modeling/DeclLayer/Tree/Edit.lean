import DeclLayer.Tree.Node

/-!
# Editing a tree

An `Editor` meets the nodes of a statement in the order of `Item.nodes`. It is told of statements,
may rename type parameters, and may replace types; after it has replaced a type it meets the types
inside the new one. It carries a state along.

Because a replacement may be larger than what it replaces, an edit is given a number of levels after
which it goes no deeper. A type has fewer levels than nodes, so an editor that makes nothing deeper
needs no more levels than the statement has nodes.
-/

namespace DeclLayer

/-- What to do at the nodes of a tree, with a state of type `σ`. -/
structure Editor (σ : Type) where
  /-- Told of a statement, by its declared name. -/
  item : Option String → StateM σ Unit
  /-- The new name of a type parameter. -/
  param : String → StateM σ String
  /-- The type that takes the place of a type. -/
  type : Ty → StateM σ Ty

section

variable {m : Type → Type} [Monad m]

/-! ## One level -/

/-- Acts on a type that may be missing. -/
def Ty.onOption (f : Ty → m Ty) : Option Ty → m (Option Ty)
  | none => return none
  | some ty => return some (← f ty)

/-- Acts on the name of a type parameter, then on the types in it. -/
def TypeParam.onParts (rename : String → m String) (f : Ty → m Ty) (p : TypeParam Ty) :
    m (TypeParam Ty) := do
  let name ← rename p.name
  let constraint ← Ty.onOption f p.constraint
  let default ← Ty.onOption f p.default
  return ⟨name, constraint, default⟩

/-- Acts on the type of a parameter. -/
def Param.onParts (f : Ty → m Ty) (p : Param Ty) : m (Param Ty) := do
  return { p with type := ← Ty.onOption f p.type }

/-- Acts on the parts of a signature. -/
def Signature.onParts (rename : String → m String) (f : Ty → m Ty) (s : Signature Ty) :
    m (Signature Ty) := do
  let typeParams ← s.typeParams.mapM (TypeParam.onParts rename f)
  let thisType ← Ty.onOption f s.thisType
  let params ← s.params.mapM (Param.onParts f)
  return ⟨typeParams, thisType, params⟩

/-- Acts on the types of an index signature. -/
def IndexSignature.onParts (f : Ty → m Ty) (i : IndexSignature Ty) : m (IndexSignature Ty) := do
  let keyType ← f i.keyType
  let value ← f i.value
  return { i with keyType := keyType, value := value }

/-- Acts on the parts of a call or construct signature. -/
def Callable.onParts (rename : String → m String) (f : Ty → m Ty) (c : Callable Ty) :
    m (Callable Ty) := do
  let signature ← c.signature.onParts rename f
  let returns ← Ty.onOption f c.returns
  return { c with signature := signature, returns := returns }

/-- Acts on the parts of a member. -/
def Member.onParts (rename : String → m String) (f : Ty → m Ty) : Member Ty → m (Member Ty)
  | .property p => return .property { p with type := ← f p.type }
  | .method d => do
    let signature ← d.signature.onParts rename f
    let returns ← Ty.onOption f d.returns
    return .method { d with signature := signature, returns := returns }
  | .call c => return .call (← c.onParts rename f)
  | .construct c => return .construct (← c.onParts rename f)
  | .index i => return .index (← i.onParts f)

/-- Acts on the type parameters and types directly inside a type. -/
def Ty.onParts (rename : String → m String) (f : Ty → m Ty) : Ty → m Ty
  | .named name args => return .named name (← args.mapM f)
  | .union types => return .union (← types.mapM f)
  | .intersection types => return .intersection (← types.mapM f)
  | .function signature returns => do
    let signature ← signature.onParts rename f
    return .function signature (← f returns)
  | .construct isAbstract signature returns => do
    let signature ← signature.onParts rename f
    return .construct isAbstract signature (← f returns)
  | .object members => return .object (← members.mapM (Member.onParts rename f))
  | .array element => return .array (← f element)
  | .tuple elements =>
    return .tuple (← elements.mapM fun e => return { e with type := ← f e.type })
  | .keyOf type => return .keyOf (← f type)
  | .readonly type => return .readonly (← f type)
  | .index target key => do
    let target ← f target
    return .index target (← f key)
  | .conditional check bound whenTrue whenFalse => do
    let check ← f check
    let bound ← f bound
    let whenTrue ← f whenTrue
    return .conditional check bound whenTrue (← f whenFalse)
  | .mapped key keys nameType value readonlyMod optionalMod => do
    let keys ← f keys
    let nameType ← Ty.onOption f nameType
    return .mapped key keys nameType (← f value) readonlyMod optionalMod
  | .imported module qualifier args isTypeof =>
    return .imported module qualifier (← args.mapM f) isTypeof
  | .predicate asserts param type =>
    return .predicate asserts param (← Ty.onOption f type)
  | .paren type => return .paren (← f type)
  | .primitive p => return .primitive p
  | .string value => return .string value
  | .number text => return .number text
  | .boolean value => return .boolean value
  | .typeOf name => return .typeOf name
  | .uniqueSymbol => return .uniqueSymbol
  | .infer name => return .infer name
  | .template raw => return .template raw
  | .this => return .this

/-- Acts on the parts of a class member. -/
def ClassMember.onParts (rename : String → m String) (f : Ty → m Ty) :
    ClassMember → m ClassMember
  | .property p => return .property { p with type := ← Ty.onOption f p.type }
  | .method d => do
    let signature ← d.signature.onParts rename f
    let returns ← Ty.onOption f d.returns
    return .method { d with signature := signature, returns := returns }
  | .constructor c => return .constructor { c with params := ← c.params.mapM (Param.onParts f) }
  | .index i => return .index (← i.onParts f)

end

/-! ## All levels -/

variable {σ : Type}

/-- Edits a type, and what is in it, down to the given number of levels. -/
def Ty.edit (e : Editor σ) : Nat → Ty → StateM σ Ty
  | 0, ty => return ty
  | levels + 1, ty => do
    let ty ← e.type ty
    ty.onParts e.param (Ty.edit e levels)

mutual

/-- Edits a statement, going down the given number of levels into its types. -/
def Item.edit (e : Editor σ) (levels : Nat) : Item → StateM σ Item
  | .function d => do
    e.item (some d.name)
    let signature ← d.signature.onParts e.param (Ty.edit e levels)
    let returns ← Ty.onOption (Ty.edit e levels) d.returns
    return .function { d with signature := signature, returns := returns }
  | .interface d => do
    e.item (some d.name)
    let typeParams ← d.typeParams.mapM (TypeParam.onParts e.param (Ty.edit e levels))
    let bases ← d.bases.mapM (Ty.edit e levels)
    let members ← d.members.mapM (Member.onParts e.param (Ty.edit e levels))
    return .interface { d with typeParams := typeParams, bases := bases, members := members }
  | .typeAlias d => do
    e.item (some d.name)
    let typeParams ← d.typeParams.mapM (TypeParam.onParts e.param (Ty.edit e levels))
    let type ← Ty.edit e levels d.type
    return .typeAlias { d with typeParams := typeParams, type := type }
  | .cls d => do
    e.item (some d.name)
    let typeParams ← d.typeParams.mapM (TypeParam.onParts e.param (Ty.edit e levels))
    let base ← Ty.onOption (Ty.edit e levels) d.base
    let interfaces ← d.interfaces.mapM (Ty.edit e levels)
    let members ← d.members.mapM (ClassMember.onParts e.param (Ty.edit e levels))
    return .cls
      { d with typeParams := typeParams, base := base, interfaces := interfaces,
               members := members }
  | .var d => do
    e.item (some d.name)
    return .var { d with type := ← Ty.onOption (Ty.edit e levels) d.type }
  | .enum d => do
    e.item (some d.name)
    return .enum d
  | .space ⟨docs, modifiers, name, items⟩ => do
    e.item (some name)
    return .space ⟨docs, modifiers, name, ← Item.editList e levels items⟩
  | .ambient ⟨docs, modifiers, name, items⟩ => do
    e.item (some name)
    return .ambient ⟨docs, modifiers, name, ← Item.editList e levels items⟩
  | .exports x => do
    e.item none
    return .exports x
  | .imports x => do
    e.item none
    return .imports x
  | .verbatim text => do
    e.item none
    return .verbatim text

/-- Edits statements in order. -/
def Item.editList (e : Editor σ) (levels : Nat) : List Item → StateM σ (List Item)
  | [] => return []
  | item :: items => do
    let item ← item.edit e levels
    let items ← Item.editList e levels items
    return item :: items

end

end DeclLayer
