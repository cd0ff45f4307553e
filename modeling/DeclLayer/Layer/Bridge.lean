import DeclLayer.Text.Basic
import DeclLayer.Tree.Item

/-!
# The bridge for enums

A separated enum is only declared, so the generated module has no value for it. The bridge binds
each name in module scope to the enum of the runtime module and exports the bindings, so that one
name serves as a type and as a value.
-/

namespace DeclLayer

/-- The names that are bound. -/
structure Bridge where
  /-- The name of the runtime module in the generated layer. -/
  localName : String
  /-- Each name once. -/
  names : List String
  deriving DecidableEq, Repr

namespace Bridge

/-- The bridge for some enums. Enums of one name share a binding. -/
def ofEnums (localName : String) (enums : List EnumDecl) : Bridge :=
  ⟨localName, (enums.map EnumDecl.name).eraseDups⟩

/-- Each name with the expression for its value. -/
def bindings (b : Bridge) : List (String × String) :=
  b.names.map fun name => (name, b.localName ++ "." ++ name)

/-- The lines before the bindings. -/
def preamble : List String :=
  ["// this is a trick to get the enums defined in the local scope by their name, but have the " ++
    "compiler",
   "// understand this as exporting the ambient declarations above (so it works at compile time " ++
    "and run time)",
   "// @ts-ignore: Implicit use of this.",
   "const tempThis = this as any;"]

/-- The statements that bind the names. -/
def bindingStatements (b : Bridge) : String :=
  Text.joinWith "\n" (preamble ++ b.bindings.map fun (name, value) =>
    "tempThis[\"" ++ name ++ "\"] = " ++ value ++ ";")

/-- The export of the names. -/
def exported (b : Bridge) : Export :=
  .named (b.names.map fun name => (name, none))

/-- The statements of the bridge. Without names there are none. -/
def statements (b : Bridge) : List Item :=
  if b.names.isEmpty then [] else [.verbatim b.bindingStatements, .exports b.exported]

end Bridge

end DeclLayer
