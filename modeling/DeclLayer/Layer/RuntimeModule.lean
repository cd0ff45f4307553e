import DeclLayer.Tree.Item

/-!
# The runtime module

The module that gives the generated layer its values: it is imported under an alias, and a statement
at the end of the namespace copies its members onto the namespace.
-/

namespace DeclLayer

/-- A helper object with an `assign` function. -/
structure AssignHelper where
  name : String
  /-- The module that the helper is imported from. -/
  module : String
  deriving DecidableEq, Repr

/-- The module behind the generated layer. -/
structure RuntimeModule where
  module : String
  /-- The name under which the whole module is imported. -/
  localName : String
  /-- The helper that copies the members; the built-in one if there is none. -/
  helper : Option AssignHelper
  deriving DecidableEq, Repr

namespace RuntimeModule

/-- The compiler package. -/
def standard : RuntimeModule where
  module := "typescript"
  localName := "tsCompiler"
  helper := some ⟨"ObjectUtils", "../utils/ObjectUtils"⟩

/-- The imports of the generated layer. -/
def imports (r : RuntimeModule) : List Import :=
  .namespaced r.localName r.module ::
    match r.helper with
    | some helper => [.named [helper.name] helper.module]
    | none => []

/-- The statement that replaces the members of a namespace with those of the module. -/
def overwriteStatement (r : RuntimeModule) (name : String) : String :=
  let assign := match r.helper with
    | some helper => helper.name ++ ".assign"
    | none => "Object.assign"
  "// overwrite this namespace with the TypeScript compiler\n" ++ assign ++ "((" ++ name ++
    " as any), " ++ r.localName ++ ");"

/-- Puts the overwriting statement at the end of a namespace. -/
def addOverwrite (r : RuntimeModule) (ns : Namespace) : Namespace :=
  { ns with items := ns.items ++ [.verbatim (r.overwriteStatement ns.name)] }

end RuntimeModule

end DeclLayer
