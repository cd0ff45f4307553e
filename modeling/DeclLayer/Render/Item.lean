import DeclLayer.Render.Type
import DeclLayer.Tree.Item

/-!
# The text of statements

`Item.render` writes a statement at a depth, and `renderItems` a whole file. Each statement ends
with a line feed, and an empty line stands between two statements of which one is a block.
-/

namespace DeclLayer

/-- How statements are indented. -/
structure Style where
  /-- Spaces for a level of indentation. -/
  indentSize : Nat
  /-- One tab for a level, whatever the number of spaces. -/
  useTabs : Bool
  deriving DecidableEq, Repr

namespace Style

/-- Four spaces for a level. -/
def standard : Style := ⟨4, false⟩

/-- The text of one level of indentation. -/
def unit (style : Style) : String :=
  if style.useTabs then "\t" else String.ofList (List.replicate style.indentSize ' ')

end Style

/-- The words before the keyword of a declaration. -/
def Modifiers.lead (m : Modifiers) : String :=
  textIf m.exported "export " ++ textIf m.declared "declare "

/-- The word before a class member. -/
def Visibility.lead : Visibility → String
  | .everyone => ""
  | .subclasses => "protected "
  | .owner => "private "

/-- A line at a depth. An empty line is not indented. -/
def Layout.line (layout : Layout) (depth : Nat) (text : String) : String :=
  if text.isEmpty then "\n" else layout.indent depth ++ text ++ "\n"

/-- An initializer that may be missing, after its equals sign. -/
def initializerText (init : Option String) : String :=
  match init with
  | some text => " = " ++ text
  | none => ""

/-- The members of an enum, a line each, separated by commas. -/
def EnumMember.renderList (layout : Layout) (depth : Nat) : List EnumMember → String
  | [] => ""
  | m :: ms =>
    layout.docBlock depth m.docs ++
      layout.line depth (m.name ++ initializerText m.initializer ++ textIf (!ms.isEmpty) ",") ++
      EnumMember.renderList layout depth ms

/-- Exported names, a line each, separated by commas. -/
def Export.renderNames (layout : Layout) (depth : Nat) : List (String × Option String) → String
  | [] => ""
  | (name, localName) :: names =>
    layout.line depth
        (name ++ (match localName with
          | some localName => " as " ++ localName
          | none => "") ++ textIf (!names.isEmpty) ",") ++
      Export.renderNames layout depth names

/-- An export statement. -/
def Export.render (layout : Layout) (depth : Nat) : Export → String
  | .equals name => layout.line depth ("export = " ++ name ++ ";")
  | .default name => layout.line depth ("export default " ++ name ++ ";")
  | .named names =>
    if names.isEmpty then layout.line depth "export \x7b\x7d;"
    else
      layout.line depth "export \x7b" ++ Export.renderNames layout (depth + 1) names ++
        layout.line depth "\x7d;"

/-- An import statement. -/
def Import.text : Import → String
  | .namespaced localName module =>
    "import * as " ++ localName ++ " from " ++ Text.quote module ++ ";"
  | .named names module =>
    "import \x7b " ++ Text.joinWith ", " names ++ " \x7d from " ++ Text.quote module ++ ";"

/-- A class member, at the given depth. -/
def ClassMember.render (layout : Layout) (depth : Nat) : ClassMember → String
  | .property p =>
    layout.docBlock depth p.docs ++ layout.indent depth ++ p.visibility.lead ++
      textIf p.isStatic "static " ++ textIf p.isAbstract "abstract " ++
      textIf p.readonly "readonly " ++ p.name ++ textIf p.optional "?" ++
      Ty.renderAfter layout depth ": " p.type ++ ";\n"
  | .method m =>
    layout.docBlock depth m.docs ++ layout.indent depth ++ m.visibility.lead ++
      textIf m.isStatic "static " ++ textIf m.isAbstract "abstract " ++ m.kind.lead ++ m.name ++
      textIf m.optional "?" ++ Ty.renderSignature layout depth m.signature ++
      Ty.renderAfter layout depth ": " m.returns ++ ";\n"
  | .constructor c =>
    layout.docBlock depth c.docs ++ layout.indent depth ++ c.visibility.lead ++ "constructor" ++
      Ty.renderSignature layout depth ⟨[], none, c.params⟩ ++ ";\n"
  | .index i => Ty.renderMembers layout depth [.index i]

/-- Types after a word that leads to them, if there are any. -/
def Ty.renderBases (layout : Layout) (lead : String) (types : List Ty) : String :=
  if types.isEmpty then ""
  else lead ++ Text.joinWith ", " (Ty.renderList layout layout.base types)

/-- The opening line of a namespace. The global scope has no keyword. -/
def namespaceHeader (modifiers : Modifiers) (name : String) : String :=
  modifiers.lead ++ (if name == "global" then "global" else "namespace " ++ name) ++ " \x7b"

/-- The empty line between a statement and the one before it, if one of them is a block. -/
def blankBetween (before : Option Item) (item : Item) : String :=
  match before with
  | none => ""
  | some before => textIf (before.isBlock || item.isBlock) "\n"

mutual

/-- The text of a statement at a depth. -/
def Item.render (unit : String) (depth : Nat) : Item → String
  | .function d =>
    let layout : Layout := ⟨unit, depth⟩
    layout.docBlock depth d.docs ++
      layout.line depth
        (d.modifiers.lead ++ "function " ++ d.name ++ Ty.renderSignature layout depth d.signature ++
          Ty.renderAfter layout depth ": " d.returns ++ ";")
  | .interface d =>
    let layout : Layout := ⟨unit, depth⟩
    layout.docBlock depth d.docs ++
      layout.line depth
        (d.modifiers.lead ++ "interface " ++ d.name ++
          angled (Ty.renderTypeParams layout d.typeParams) ++
          Ty.renderBases layout " extends " d.bases ++ " \x7b") ++
      Ty.renderMembers layout (depth + 1) d.members ++ layout.line depth "\x7d"
  | .typeAlias d =>
    let layout : Layout := ⟨unit, depth⟩
    layout.docBlock depth d.docs ++
      layout.line depth
        (d.modifiers.lead ++ "type " ++ d.name ++
          angled (Ty.renderTypeParams layout d.typeParams) ++ " = " ++
          d.type.render layout depth ++ ";")
  | .cls d =>
    let layout : Layout := ⟨unit, depth⟩
    layout.docBlock depth d.docs ++
      layout.line depth
        (d.modifiers.lead ++ textIf d.isAbstract "abstract " ++ "class " ++ d.name ++
          angled (Ty.renderTypeParams layout d.typeParams) ++
          Ty.renderAfter layout depth " extends " d.base ++
          Ty.renderBases layout " implements " d.interfaces ++ " \x7b") ++
      String.join (d.members.map (ClassMember.render layout (depth + 1))) ++
      layout.line depth "\x7d"
  | .var d =>
    let layout : Layout := ⟨unit, depth⟩
    layout.docBlock depth d.docs ++
      layout.line depth
        (d.modifiers.lead ++ d.kind.text ++ " " ++ d.name ++
          Ty.renderAfter layout depth ": " d.type ++ initializerText d.initializer ++ ";")
  | .enum d =>
    let layout : Layout := ⟨unit, depth⟩
    layout.docBlock depth d.docs ++
      layout.line depth
        (d.modifiers.lead ++ textIf d.isConst "const " ++ "enum " ++ d.name ++ " \x7b") ++
      EnumMember.renderList layout (depth + 1) d.members ++ layout.line depth "\x7d"
  | .space ⟨docs, modifiers, name, items⟩ =>
    let layout : Layout := ⟨unit, depth⟩
    layout.docBlock depth docs ++ layout.line depth (namespaceHeader modifiers name) ++
      Item.renderList unit (depth + 1) none items ++ layout.line depth "\x7d"
  | .ambient ⟨docs, modifiers, name, items⟩ =>
    let layout : Layout := ⟨unit, depth⟩
    layout.docBlock depth docs ++
      layout.line depth (modifiers.lead ++ "module " ++ Text.quote name ++ " \x7b") ++
      Item.renderList unit (depth + 1) none items ++ layout.line depth "\x7d"
  | .exports e => e.render ⟨unit, depth⟩ depth
  | .imports i => Layout.line ⟨unit, depth⟩ depth i.text
  | .verbatim text => String.join ((Text.lines text).map (Layout.line ⟨unit, depth⟩ depth))

/-- The texts of statements at a depth, with the empty lines between them. -/
def Item.renderList (unit : String) (depth : Nat) (before : Option Item) : List Item → String
  | [] => ""
  | item :: items =>
    blankBetween before item ++ item.render unit depth ++
      Item.renderList unit depth (some item) items

end

/-- The text of a file. -/
def renderItems (style : Style) (items : List Item) : String :=
  Item.renderList style.unit 0 none items

end DeclLayer
