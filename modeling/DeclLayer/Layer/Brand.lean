import DeclLayer.Layer.Error
import DeclLayer.Parse.Type
import DeclLayer.Tree.Item

/-!
# Brands

A brand is a property that no value has: it keeps values of the same shape from elsewhere out of an
interface. It goes to the first interface of its name directly inside the namespace, and no
interface of that name may have it already.
-/

namespace DeclLayer

/-- A brand. -/
structure Brand where
  interface : String
  property : String
  /-- The type of the property, as source text. -/
  type : String
  /-- The lines of the documentation of the property. -/
  docs : List String
  deriving DecidableEq, Repr

namespace Brand

/-- The brand of the compiler's nodes. -/
def standard : Brand where
  interface := "Node"
  property := "_tsSimpleAstBrand"
  type := "never"
  docs :=
    ["This brand prevents using nodes not created within this library or not created within " ++
      "the ts namespace object of this library.",
     "It's recommended that you only use this library and use its ts named export for all your " ++
      "TypeScript compiler needs.",
     "If you want to ignore this and are using the same TypeScript compiler version as " ++
      "ts.versionMajorMinor then assert it to ts.Node.",
     "If you don't use this library with this same major & minor version of TypeScript then be " ++
      "warned, you may encounter unexpected behaviour."]

/-- The property of a brand. -/
def member (b : Brand) : Except LayerError (Member Ty) :=
  match Ty.parse b.type with
  | .error e => .error (.invalidBrandType b.type e)
  | .ok ty =>
    let docs := if b.docs.isEmpty then [] else [Text.joinWith "\n" b.docs]
    .ok (.property ⟨docs, b.property, ty, false, false⟩)

/-- Whether no value can have the brand. -/
def isUninhabited (b : Brand) : Bool :=
  match Ty.parse b.type with
  | .ok (.primitive .never) => true
  | _ => false

/-- The members of a statement, if it is an interface of the brand's name. -/
def target? (b : Brand) : Item → Option (List (Member Ty))
  | .interface d => if d.name = b.interface then some d.members else none
  | _ => none

/-- Appends a member to the first interface of the brand's name. -/
def append (b : Brand) (member : Member Ty) : List Item → List Item
  | [] => []
  | .interface d :: items =>
    if d.name = b.interface then .interface { d with members := d.members ++ [member] } :: items
    else .interface d :: b.append member items
  | item :: items => item :: b.append member items

/-- Brands the interface in a namespace, which is changed in place. -/
def injectInPlace (b : Brand) : ExceptT LayerError (StateM Namespace) Unit := do
  let member ← MonadExcept.ofExcept b.member
  let ns ← get
  match ns.items.filterMap b.target? with
  | [] => throw (.missingBrandTarget b.interface)
  | targets =>
    if targets.any fun members => members.any fun m => m.name? == some b.property then
      throw (.duplicateBrand b.interface b.property)
    else set { ns with items := b.append member ns.items }

/-- Brands the interface in a namespace. -/
def inject (b : Brand) (ns : Namespace) : Except LayerError Namespace :=
  let (result, branded) := b.injectInPlace.run.run ns
  result.map fun _ => branded

end Brand

end DeclLayer
