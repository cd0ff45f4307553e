import DeclLayer.Tree.Item

/-!
# Kinds of declaration

The seven kinds of declaration that a namespace can hold.
-/

namespace DeclLayer

/-- A kind of declaration. -/
inductive DeclKind where
  | enum | interface | typeAlias | cls | function | var | space
  deriving DecidableEq, Repr

namespace DeclKind

/-- Every kind. -/
def all : List DeclKind := [.enum, .interface, .typeAlias, .cls, .function, .var, .space]

/-- The name of a kind. -/
def text : DeclKind → String
  | .enum => "enum"
  | .interface => "interface"
  | .typeAlias => "type alias"
  | .cls => "class"
  | .function => "function"
  | .var => "variable"
  | .space => "namespace"

end DeclKind

/-- The kind of a statement that declares a member of its namespace. -/
def Item.kind? : Item → Option DeclKind
  | .enum _ => some .enum
  | .interface _ => some .interface
  | .typeAlias _ => some .typeAlias
  | .cls _ => some .cls
  | .function _ => some .function
  | .var _ => some .var
  | .space _ => some .space
  | .ambient _ | .exports _ | .imports _ | .verbatim _ => none

/-- The enums among statements. -/
def enumsOf (items : List Item) : List EnumDecl :=
  items.filterMap fun
    | .enum d => some d
    | _ => none

/-- The interfaces among statements. -/
def interfacesOf (items : List Item) : List InterfaceDecl :=
  items.filterMap fun
    | .interface d => some d
    | _ => none

/-- The type aliases among statements. -/
def aliasesOf (items : List Item) : List AliasDecl :=
  items.filterMap fun
    | .typeAlias d => some d
    | _ => none

/-- The namespaces of a name among statements. -/
def namespacesOf (name : String) (items : List Item) : List Namespace :=
  items.filterMap fun
    | .space b => if b.name = name then some b else none
    | _ => none

end DeclLayer
