import DeclLayer.Text.Quoted
import DeclLayer.Tree.Type

/-!
# The text of types

`Ty.render` writes a type. Everything stands on one line but the members of an object type, which
have a line each, one level deeper than the type. No round brackets are added: a type that needs
them holds a `Ty.paren`.

A type inside a statement knows two depths: the depth at which it stands itself, which is where an
object type's closing brace goes, and the depth of the whole statement, at which the bounds and
defaults of all type parameters in it are laid out.
-/

namespace DeclLayer

/-- How deep the lines are indented. -/
structure Layout where
  /-- The text of one level of indentation. -/
  unit : String
  /-- The depth of the statement that is being written. -/
  base : Nat

namespace Layout

/-- Four spaces a level, at depth zero. -/
def standard : Layout := ⟨"    ", 0⟩

/-- The indentation of a line at a depth. -/
def indent (layout : Layout) (depth : Nat) : String :=
  String.join (List.replicate depth layout.unit)

/-- A documentation comment, each line in a gutter of stars. -/
def docBlock (layout : Layout) (depth : Nat) (docs : Docs) : String :=
  let indent := layout.indent depth
  String.join (docs.map fun doc =>
    indent ++ "/**\n" ++
      String.join ((Text.lines doc).map fun line =>
        indent ++ (if line.isEmpty then " *\n" else " * " ++ line ++ "\n")) ++
      indent ++ " */\n")

end Layout

/-- The word before the name of an accessor. -/
def MethodKind.lead : MethodKind → String
  | .method => ""
  | .get => "get "
  | .set => "set "

/-- A modifier of a mapped type, in front of its word or mark. -/
def MappedModifier.sign : MappedModifier → String
  | .add => "+"
  | .remove => "-"
  | .preserve => ""

/-- A text if a condition holds, and nothing otherwise. -/
def textIf (condition : Bool) (text : String) : String :=
  if condition then text else ""

/-- Type arguments or type parameters in angle brackets, if there are any. -/
def angled (parts : List String) : String :=
  if parts.isEmpty then "" else "<" ++ Text.joinWith ", " parts ++ ">"

mutual

/-- The text of a type that stands at the given depth. -/
def Ty.render (layout : Layout) (depth : Nat) : Ty → String
  | .named name args => name ++ angled (Ty.renderList layout depth args)
  | .primitive p => p.text
  | .string value => Text.quote value
  | .number text => text
  | .boolean value => if value then "true" else "false"
  | .union types => Text.joinWith " | " (Ty.renderList layout depth types)
  | .intersection types => Text.joinWith " & " (Ty.renderList layout depth types)
  | .function signature returns =>
    Ty.renderSignature layout depth signature ++ " => " ++ returns.render layout depth
  | .construct isAbstract signature returns =>
    textIf isAbstract "abstract " ++ "new " ++ Ty.renderSignature layout depth signature ++
      " => " ++ returns.render layout depth
  | .object members =>
    if members.isEmpty then "\x7b\x7d"
    else "\x7b\n" ++ Ty.renderMembers layout (depth + 1) members ++ layout.indent depth ++ "\x7d"
  | .array element => element.render layout depth ++ "[]"
  | .tuple elements => "[" ++ Text.joinWith ", " (Ty.renderElements layout depth elements) ++ "]"
  | .typeOf name => "typeof " ++ name
  | .keyOf type => "keyof " ++ type.render layout depth
  | .readonly type => "readonly " ++ type.render layout depth
  | .uniqueSymbol => "unique symbol"
  | .index target key => target.render layout depth ++ "[" ++ key.render layout depth ++ "]"
  | .conditional check bound whenTrue whenFalse =>
    check.render layout depth ++ " extends " ++ bound.render layout depth ++ " ? " ++
      whenTrue.render layout depth ++ " : " ++ whenFalse.render layout depth
  | .mapped key keys nameType value readonlyMod optionalMod =>
    "\x7b " ++ (match readonlyMod with
        | some m => m.sign ++ "readonly "
        | none => "") ++
      "[" ++ key ++ " in " ++ keys.render layout depth ++
      Ty.renderAfter layout depth " as " nameType ++ "]" ++
      (match optionalMod with
        | some m => m.sign ++ "?"
        | none => "") ++
      ": " ++ value.render layout depth ++ "; \x7d"
  | .infer name => "infer " ++ name
  | .template raw => "\x60" ++ raw ++ "\x60"
  | .imported module qualifier args isTypeof =>
    textIf isTypeof "typeof " ++ "import(" ++ Text.quote module ++ ")" ++
      (match qualifier with
        | some q => "." ++ q
        | none => "") ++
      angled (Ty.renderList layout depth args)
  | .predicate asserts param type =>
    textIf asserts "asserts " ++ param ++ Ty.renderAfter layout depth " is " type
  | .paren type => "(" ++ type.render layout depth ++ ")"
  | .this => "this"

/-- The texts of types. -/
def Ty.renderList (layout : Layout) (depth : Nat) : List Ty → List String
  | [] => []
  | ty :: tys => ty.render layout depth :: Ty.renderList layout depth tys

/-- A type that may be missing, after a text that leads to it. -/
def Ty.renderAfter (layout : Layout) (depth : Nat) (lead : String) : Option Ty → String
  | none => ""
  | some ty => lead ++ ty.render layout depth

/-- The texts of type parameters, laid out at the depth of the statement. -/
def Ty.renderTypeParams (layout : Layout) : List (TypeParam Ty) → List String
  | [] => []
  | ⟨name, constraint, default⟩ :: ps =>
    (name ++ Ty.renderAfter layout layout.base " extends " constraint ++
      Ty.renderAfter layout layout.base " = " default) :: Ty.renderTypeParams layout ps

/-- The texts of parameters. -/
def Ty.renderParams (layout : Layout) (depth : Nat) : List (Param Ty) → List String
  | [] => []
  | ⟨name, type, optional, rest⟩ :: ps =>
    (textIf rest "..." ++ name ++ textIf optional "?" ++ Ty.renderAfter layout depth ": " type) ::
      Ty.renderParams layout depth ps

/-- The text of the type of `this`, as the first entry of a list of parameters. -/
def Ty.renderThis (layout : Layout) (depth : Nat) : Option Ty → List String
  | none => []
  | some ty => ["this: " ++ ty.render layout depth]

/-- The text of a signature: type parameters and parameters. -/
def Ty.renderSignature (layout : Layout) (depth : Nat) : Signature Ty → String
  | ⟨typeParams, thisType, params⟩ =>
    angled (Ty.renderTypeParams layout typeParams) ++ "(" ++
      Text.joinWith ", "
        (Ty.renderThis layout depth thisType ++ Ty.renderParams layout depth params) ++ ")"

/-- The texts of tuple elements. -/
def Ty.renderElements (layout : Layout) (depth : Nat) : List (TupleElement Ty) → List String
  | [] => []
  | ⟨type, name, optional, rest⟩ :: es =>
    (textIf rest "..." ++
      (match name with
        | some name => name ++ textIf optional "?" ++ ": " ++ type.render layout depth
        | none => type.render layout depth ++ textIf optional "?")) ::
      Ty.renderElements layout depth es

/-- The lines of members, at the given depth. -/
def Ty.renderMembers (layout : Layout) (depth : Nat) : List (Member Ty) → String
  | [] => ""
  | .property ⟨docs, name, type, optional, isReadonly⟩ :: ms =>
    layout.docBlock depth docs ++ layout.indent depth ++ textIf isReadonly "readonly " ++ name ++
      textIf optional "?" ++ ": " ++ type.render layout depth ++ ";\n" ++
      Ty.renderMembers layout depth ms
  | .method ⟨docs, name, kind, signature, returns, optional⟩ :: ms =>
    layout.docBlock depth docs ++ layout.indent depth ++ kind.lead ++ name ++
      textIf optional "?" ++ Ty.renderSignature layout depth signature ++
      Ty.renderAfter layout depth ": " returns ++ ";\n" ++ Ty.renderMembers layout depth ms
  | .call ⟨docs, signature, returns⟩ :: ms =>
    layout.docBlock depth docs ++ layout.indent depth ++
      Ty.renderSignature layout depth signature ++ Ty.renderAfter layout depth ": " returns ++
      ";\n" ++ Ty.renderMembers layout depth ms
  | .construct ⟨docs, signature, returns⟩ :: ms =>
    layout.docBlock depth docs ++ layout.indent depth ++ "new " ++
      Ty.renderSignature layout depth signature ++ Ty.renderAfter layout depth ": " returns ++
      ";\n" ++ Ty.renderMembers layout depth ms
  | .index ⟨docs, key, keyType, value, isReadonly⟩ :: ms =>
    layout.docBlock depth docs ++ layout.indent depth ++ textIf isReadonly "readonly " ++ "[" ++
      key ++ ": " ++ keyType.render layout depth ++ "]: " ++ value.render layout depth ++ ";\n" ++
      Ty.renderMembers layout depth ms

end

/-- The text of a type on its own. -/
def Ty.text (ty : Ty) : String :=
  ty.render Layout.standard 0

end DeclLayer
