import DeclLayer.Layer.Index
import DeclLayer.Tree.Edit

/-!
# References

Which names the separated declarations refer to, and which of these they can no longer reach: a name
that is declared in the namespace only, and is not bound by the declaration itself.

In a layer every reference is a name. A type that is taken from another module by name is replaced
by that name (`stripImportTypes`); a type that stands for the whole module is left alone.
-/

namespace DeclLayer

/-! ## References that cannot be reached -/

namespace Node

/-- The name that a node binds: a type parameter, an inferred type or the key of a mapped type. -/
def bound? : Node → Option String
  | .param name => some name
  | .type (.infer name) => some name
  | .type (.mapped key _ _ _ _ _) => some key
  | _ => none

/-- The name that a node refers to. -/
def reference? : Node → Option String
  | .type (.named name _) => some name
  | .type (.typeOf name) => some name
  | _ => none

end Node

/-- The first word of a dotted name. -/
def headWord (name : String) : String :=
  String.ofList (name.toList.takeWhile (· != '.'))

/-- The names bound anywhere in a statement. -/
def Item.boundNames (item : Item) : List String :=
  item.nodes.filterMap Node.bound?

/-- The names that a statement refers to, in order. -/
def Item.references (item : Item) : List String :=
  item.nodes.filterMap Node.reference?

/-- Whether a reference can only be reached inside the namespace. -/
def isUnresolved (index : Index) (p : Policy) (bound : List String) (reference : String) : Bool :=
  let head := headWord reference
  !bound.contains head && !p.hoistsName head && index.contains head

/-- The unresolved references of one separated declaration, each once. -/
def Item.unresolved (index : Index) (p : Policy) (item : Item) : List UnresolvedReference :=
  match item.name? with
  | none => []
  | some declaration =>
    let bound := item.boundNames
    ((item.references.filter (isUnresolved index p bound)).eraseDups).map fun reference =>
      ⟨declaration, reference⟩

/-- The unresolved references of the separated declarations. -/
def findUnresolved (index : Index) (p : Policy) (outer : List Item) : List UnresolvedReference :=
  outer.flatMap (Item.unresolved index p)

/-! ## Import types -/

/-- Replaces an import type by the name in it, and counts. -/
def Ty.stripImport : Ty → StateM Nat Ty
  | .imported _ (some qualifier) args isTypeof => do
    modify (· + 1)
    return if isTypeof then .typeOf qualifier else .named qualifier args
  | ty => return ty

/-- The editor that strips import types. -/
def importStripper : Editor Nat where
  item _ := pure ()
  param name := pure name
  type := Ty.stripImport

/-- Strips the import types everywhere in some statements, and counts them. -/
def stripImportTypes (items : List Item) : List Item × Nat :=
  (Item.editList importStripper (Item.nodesList items).length items).run 0

end DeclLayer
