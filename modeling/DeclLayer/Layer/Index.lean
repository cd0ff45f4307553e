import DeclLayer.Layer.Error
import DeclLayer.Tree.Kind

/-!
# The index of a namespace

An `Index` holds the direct contents of all blocks of one namespace: a list for each kind of
declaration, in the order of the source and with repeated names kept, and a table of the declared
names with the kinds that each is declared under.
-/

namespace DeclLayer

/-- Declared names in the order of their first appearance, each with its kinds in that order. -/
abbrev NameTable := List (String × List DeclKind)

namespace NameTable

/-- Enters a name under a kind. -/
def insert (name : String) (kind : DeclKind) : NameTable → NameTable
  | [] => [(name, [kind])]
  | (n, kinds) :: table =>
    if n = name then (n, if kinds.contains kind then kinds else kinds ++ [kind]) :: table
    else (n, kinds) :: NameTable.insert name kind table

end NameTable

/-- The direct contents of a namespace. -/
structure Index where
  enums : List EnumDecl
  interfaces : List InterfaceDecl
  aliases : List AliasDecl
  classes : List ClassDecl
  functions : List FunctionDecl
  vars : List VariableDecl
  namespaces : List Namespace
  table : NameTable

namespace Index

/-- The index of an empty namespace. -/
def empty : Index := ⟨[], [], [], [], [], [], [], []⟩

/-- Enters the name of a declaration. -/
def enter (index : Index) (name : String) (kind : DeclKind) : Index :=
  { index with table := index.table.insert name kind }

/-- Enters a statement. Ambient modules, exports, imports and verbatim text declare nothing in the
namespace. -/
def insert (index : Index) : Item → Index
  | .enum d => { index.enter d.name .enum with enums := index.enums ++ [d] }
  | .interface d => { index.enter d.name .interface with interfaces := index.interfaces ++ [d] }
  | .typeAlias d => { index.enter d.name .typeAlias with aliases := index.aliases ++ [d] }
  | .cls d => { index.enter d.name .cls with classes := index.classes ++ [d] }
  | .function d => { index.enter d.name .function with functions := index.functions ++ [d] }
  | .var d => { index.enter d.name .var with vars := index.vars ++ [d] }
  | .space b => { index.enter b.name .space with namespaces := index.namespaces ++ [b] }
  | .ambient _ | .exports _ | .imports _ | .verbatim _ => index

/-- The index of some statements. -/
def ofItems (items : List Item) : Index :=
  items.foldl insert empty

/-- The index of all blocks of a namespace among the statements of a file. There has to be one. -/
def build (name : String) (statements : List Item) : Except LayerError Index :=
  match namespacesOf name statements with
  | [] => .error (.missingNamespace name)
  | blocks => .ok (ofItems (blocks.flatMap Block.items))

/-- The kinds that a name is declared under, in the order of their first appearance. -/
def kindsOf (index : Index) (name : String) : List DeclKind :=
  (index.table.lookup name).getD []

/-- Whether a name is declared. -/
def contains (index : Index) (name : String) : Bool :=
  (index.table.lookup name).isSome

/-- Whether a name is declared under a kind. -/
def has (index : Index) (kind : DeclKind) (name : String) : Bool :=
  (index.kindsOf name).contains kind

/-- Every declared name once, in the order of first appearance. -/
def names (index : Index) : List String :=
  index.table.map Prod.fst

end Index

end DeclLayer
