import DeclLayer.Tree.Type

/-!
# Declarations

The statements of a declaration file. `Item` is one statement; a namespace and an ambient module
hold items again.
-/

namespace DeclLayer

/-- The modifiers `export` and `declare` of a declaration. -/
structure Modifiers where
  exported : Bool
  declared : Bool
  deriving DecidableEq, Repr

namespace Modifiers

/-- Neither modifier. -/
def plain : Modifiers := ⟨false, false⟩

/-- Exported, without `declare`. -/
def exportedOnly : Modifiers := ⟨true, false⟩

/-- Declared, and exported or not. -/
def ambient (exported : Bool) : Modifiers := ⟨exported, true⟩

end Modifiers

/-- A function declaration. -/
structure FunctionDecl where
  docs : Docs
  modifiers : Modifiers
  name : String
  signature : Signature Ty
  returns : Option Ty

/-- An interface declaration. -/
structure InterfaceDecl where
  docs : Docs
  modifiers : Modifiers
  name : String
  typeParams : List (TypeParam Ty)
  bases : List Ty
  members : List (Member Ty)

/-- A type alias declaration. -/
structure AliasDecl where
  docs : Docs
  modifiers : Modifiers
  name : String
  typeParams : List (TypeParam Ty)
  type : Ty

/-- The visibility of a class member. -/
inductive Visibility where
  | everyone
  | subclasses
  | owner
  deriving DecidableEq, Repr

/-- A property of a class. -/
structure ClassProperty where
  docs : Docs
  name : String
  type : Option Ty
  optional : Bool
  readonly : Bool
  isStatic : Bool
  isAbstract : Bool
  visibility : Visibility

/-- A method of a class. -/
structure ClassMethod where
  docs : Docs
  name : String
  kind : MethodKind
  signature : Signature Ty
  returns : Option Ty
  optional : Bool
  isStatic : Bool
  isAbstract : Bool
  visibility : Visibility

/-- A constructor of a class. -/
structure ClassConstructor where
  docs : Docs
  visibility : Visibility
  params : List (Param Ty)

/-- A member of a class. -/
inductive ClassMember where
  | property (p : ClassProperty)
  | method (m : ClassMethod)
  | constructor (c : ClassConstructor)
  | index (i : IndexSignature Ty)

/-- A class declaration. -/
structure ClassDecl where
  docs : Docs
  modifiers : Modifiers
  isAbstract : Bool
  name : String
  typeParams : List (TypeParam Ty)
  base : Option Ty
  interfaces : List Ty
  members : List ClassMember

/-- The keyword of a variable declaration. -/
inductive VariableKind where
  | constant
  | block
  | function
  deriving DecidableEq, Repr

/-- The spelling of the keyword of a variable declaration. -/
def VariableKind.text : VariableKind → String
  | .constant => "const"
  | .block => "let"
  | .function => "var"

/-- A variable declaration. A statement with several variables is several of them. -/
structure VariableDecl where
  docs : Docs
  modifiers : Modifiers
  kind : VariableKind
  name : String
  type : Option Ty
  /-- The initializer, as written. -/
  initializer : Option String

/-- A member of an enum. -/
structure EnumMember where
  docs : Docs
  name : String
  /-- The initializer, as written. -/
  initializer : Option String
  deriving DecidableEq, Repr

/-- An enum declaration. -/
structure EnumDecl where
  docs : Docs
  modifiers : Modifiers
  isConst : Bool
  name : String
  members : List EnumMember
  deriving DecidableEq, Repr

/-- A name with a braced list of statements. -/
structure Block (ι : Type) where
  docs : Docs
  modifiers : Modifiers
  name : String
  items : List ι

/-- An export statement. -/
inductive Export where
  /-- The value of the whole module. -/
  | equals (name : String)
  | default (name : String)
  /-- Names, each possibly under an alias. -/
  | named (names : List (String × Option String))
  deriving DecidableEq, Repr

/-- An import statement. -/
inductive Import where
  /-- A whole module under an alias. -/
  | namespaced (localName module : String)
  | named (names : List String) (module : String)
  deriving DecidableEq, Repr

/-- A statement of a declaration file. -/
inductive Item where
  | function (d : FunctionDecl)
  | interface (d : InterfaceDecl)
  | typeAlias (d : AliasDecl)
  | cls (d : ClassDecl)
  | var (d : VariableDecl)
  | enum (d : EnumDecl)
  /-- A namespace; its name may be dotted. -/
  | space (b : Block Item)
  /-- An ambient module with a quoted name. -/
  | ambient (b : Block Item)
  | exports (e : Export)
  | imports (i : Import)
  /-- Statement text that is written as it is, line by line. -/
  | verbatim (text : String)

instance : Inhabited Item := ⟨.verbatim ""⟩

/-- A namespace block. -/
abbrev Namespace := Block Item

namespace Item

/-- The declared name, if the statement declares one. -/
def name? : Item → Option String
  | .function d => some d.name
  | .interface d => some d.name
  | .typeAlias d => some d.name
  | .cls d => some d.name
  | .var d => some d.name
  | .enum d => some d.name
  | .space b => some b.name
  | .ambient b => some b.name
  | .exports _ | .imports _ | .verbatim _ => none

/-- The modifiers of a declaration. -/
def modifiers? : Item → Option Modifiers
  | .function d => some d.modifiers
  | .interface d => some d.modifiers
  | .typeAlias d => some d.modifiers
  | .cls d => some d.modifiers
  | .var d => some d.modifiers
  | .enum d => some d.modifiers
  | .space b => some b.modifiers
  | .ambient b => some b.modifiers
  | .exports _ | .imports _ | .verbatim _ => none

/-- Whether a statement is set apart from its neighbours by empty lines. -/
def isBlock : Item → Bool
  | .interface _ | .cls _ | .enum _ | .space _ | .ambient _ | .verbatim _ => true
  | _ => false

end Item

end DeclLayer
