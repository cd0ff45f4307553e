/-!
# Types

The types of declaration files. The pieces that hold types one level down (type parameters,
parameters, signatures, tuple elements, members) are generic in the type they hold, and `Ty` ties
the knot.

Names and number texts are kept as they have to be written; strings are kept by their value.
-/

namespace DeclLayer

/-- Documentation comments, one text per comment. -/
abbrev Docs := List String

/-- A type parameter: `T extends C = D`. -/
structure TypeParam (τ : Type) where
  name : String
  constraint : Option τ
  default : Option τ

/-- A parameter. Its name is an identifier or a destructuring pattern as written. -/
structure Param (τ : Type) where
  name : String
  type : Option τ
  optional : Bool
  rest : Bool

/-- What can be called: the type parameters, the type of `this` if one is declared, and the
parameters. -/
structure Signature (τ : Type) where
  typeParams : List (TypeParam τ)
  thisType : Option τ
  params : List (Param τ)

/-- An element of a tuple type. -/
structure TupleElement (τ : Type) where
  type : τ
  name : Option String
  optional : Bool
  rest : Bool

/-- A plain method or one half of an accessor. -/
inductive MethodKind where
  | method
  | get
  | set
  deriving DecidableEq, Repr

/-- A property of an interface or an object type. -/
structure Property (τ : Type) where
  docs : Docs
  name : String
  type : τ
  optional : Bool
  readonly : Bool

/-- A method of an interface or an object type. -/
structure Method (τ : Type) where
  docs : Docs
  name : String
  kind : MethodKind
  signature : Signature τ
  returns : Option τ
  optional : Bool

/-- A call or construct signature among members. -/
structure Callable (τ : Type) where
  docs : Docs
  signature : Signature τ
  returns : Option τ

/-- An index signature: `[key: K]: V`. -/
structure IndexSignature (τ : Type) where
  docs : Docs
  key : String
  keyType : τ
  value : τ
  readonly : Bool

/-- A member of an interface or an object type. -/
inductive Member (τ : Type) where
  | property (p : Property τ)
  | method (m : Method τ)
  | call (c : Callable τ)
  /-- A construct signature declares no type of `this`. -/
  | construct (c : Callable τ)
  | index (i : IndexSignature τ)

/-- The name of a member that has one. -/
def Member.name? {τ : Type} : Member τ → Option String
  | .property p => some p.name
  | .method m => some m.name
  | _ => none

/-- The types that are named by a keyword. -/
inductive Primitive where
  | string | number | boolean | void | null | undefined | any | unknown | never | object | symbol
  | bigint
  deriving DecidableEq, Repr

/-- The spelling of a primitive type. -/
def Primitive.text : Primitive → String
  | .string => "string"
  | .number => "number"
  | .boolean => "boolean"
  | .void => "void"
  | .null => "null"
  | .undefined => "undefined"
  | .any => "any"
  | .unknown => "unknown"
  | .never => "never"
  | .object => "object"
  | .symbol => "symbol"
  | .bigint => "bigint"

/-- What a mapped type does with a modifier: add it, remove it, or write it without a sign. -/
inductive MappedModifier where
  | add
  | remove
  | preserve
  deriving DecidableEq, Repr

/-- A type. -/
inductive Ty where
  /-- A reference, possibly dotted, with type arguments. -/
  | named (name : String) (args : List Ty)
  | primitive (p : Primitive)
  | string (value : String)
  | number (text : String)
  | boolean (value : Bool)
  | union (types : List Ty)
  | intersection (types : List Ty)
  | function (signature : Signature Ty) (returns : Ty)
  | construct (isAbstract : Bool) (signature : Signature Ty) (returns : Ty)
  | object (members : List (Member Ty))
  | array (element : Ty)
  | tuple (elements : List (TupleElement Ty))
  /-- The type of a value, possibly dotted. -/
  | typeOf (name : String)
  | keyOf (type : Ty)
  | readonly (type : Ty)
  | uniqueSymbol
  | index (object key : Ty)
  | conditional (check bound whenTrue whenFalse : Ty)
  | mapped (key : String) (keys : Ty) (nameType : Option Ty) (value : Ty)
      (readonly optional : Option MappedModifier)
  | infer (name : String)
  /-- A template literal type, as written between the backticks. -/
  | template (raw : String)
  /-- A type taken from another module, or the type of that module's value. -/
  | imported (module : String) (qualifier : Option String) (args : List Ty) (isTypeof : Bool)
  /-- A type predicate in return position. -/
  | predicate (asserts : Bool) (param : String) (type : Option Ty)
  | paren (type : Ty)
  | this

instance : Inhabited Ty := ⟨.this⟩

end DeclLayer
