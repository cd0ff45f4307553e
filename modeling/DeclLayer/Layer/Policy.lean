import DeclLayer.Tree.Kind

/-!
# Separation policies

A policy tells which declarations of the namespace move to module scope, and which references in
them have to be qualified with the name of the namespace.
-/

namespace DeclLayer

/-- A place of an interface at which references are qualified: the type there, or each member of it
if it is a union. -/
inductive Site where
  /-- The value type of an index signature, counted from zero. -/
  | indexSignature (index : Nat)
  /-- The type of a property. -/
  | property (name : String)
  deriving DecidableEq, Repr

/-- The wording of a site. -/
def Site.text : Site → String
  | .indexSignature index => "index signature #" ++ toString index
  | .property name => "property `" ++ name ++ "`"

/-- References to `names` at a site of a separated interface are qualified. -/
structure Rule where
  interface : String
  names : List String
  site : Site
  deriving DecidableEq, Repr

/-- What moves to module scope, by kind and name. -/
structure Policy where
  enums : List String
  interfaces : List String
  aliases : List String
  rules : List Rule
  deriving DecidableEq, Repr

namespace Policy

/-- Nothing moves. -/
def empty : Policy := ⟨[], [], [], []⟩

/-- The policy for the compiler's own namespace. -/
def compilerApi : Policy where
  enums :=
    ["SyntaxKind", "ScriptTarget", "ScriptKind", "LanguageVariant", "EmitHint", "JsxEmit",
      "ModuleKind", "ModuleResolutionKind", "NewLineKind", "TypeFlags", "ObjectFlags",
      "SymbolFlags", "TypeFormatFlags", "DiagnosticCategory", "IndentStyle"]
  interfaces := ["CompilerOptions", "MapLike", "EditorSettings"]
  aliases := []
  rules :=
    [{ interface := "CompilerOptions"
       names := ["CompilerOptionsValue", "JsonSourceFile", "TsConfigSourceFile"]
       site := .indexSignature 0 }]

/-- The names of a kind that move. -/
def listed (p : Policy) : DeclKind → List String
  | .enum => p.enums
  | .interface => p.interfaces
  | .typeAlias => p.aliases
  | _ => []

/-- Whether a declaration moves to module scope. -/
def hoists (p : Policy) (kind : DeclKind) (name : String) : Bool :=
  (p.listed kind).contains name

/-- Whether a declaration of some kind with this name moves to module scope. -/
def hoistsName (p : Policy) (name : String) : Bool :=
  [DeclKind.enum, .interface, .typeAlias].any fun kind => p.hoists kind name

end Policy

end DeclLayer
