import DeclLayer.Parse.Type
import DeclLayer.Tree.Item

/-!
# Reading statements

The grammar of statements. It is lenient where a file may hold more than declarations: a token that
begins no statement is passed, and imports are passed over. Inside a statement it is strict.

As for types, each piece is given the parser for the statements nested in it, and `itemsAt` ties the
knot.
-/

namespace DeclLayer.Parser

/-! ## Classes -/

/-- The words in front of a class member. -/
structure MemberModifiers where
  visibility : Visibility
  isStatic : Bool
  isAbstract : Bool
  readonly : Bool

/-- No words in front of a class member. -/
def MemberModifiers.none : MemberModifiers := ⟨.everyone, false, false, false⟩

/-- What a word in front of a class member adds to the words before it, if it can stand there. -/
def MemberModifiers.add? (m : MemberModifiers) : Kind → Option MemberModifiers
  | .keyword .publicKw => some { m with visibility := .everyone }
  | .keyword .privateKw => some { m with visibility := .owner }
  | .keyword .protectedKw => some { m with visibility := .subclasses }
  | .keyword .static => some { m with isStatic := true }
  | .keyword .readonly => some { m with readonly := true }
  | .keyword .abstract => some { m with isAbstract := true }
  | .keyword .declare | .ident "override" | .ident "accessor" => some m
  | _ => Option.none

/-- Reads the words in front of a class member, in at most the given number of turns. -/
def memberModifiersFor (m : MemberModifiers) : Nat → Parser MemberModifiers
  | 0 => fail .tooDeep
  | n + 1 => do
    match m.add? (← peek) with
    | some m' =>
      if ← isModifier then
        skip
        memberModifiersFor m' n
      else return m
    | Option.none => return m

/-- Passes a semicolon if there is one. -/
def skipSemicolon : Parser Unit := discard (acceptMark .semicolon)

/-- Reads a class member that has a name. A token that begins no name is passed, and there is no
member. -/
def namedClassMember (docs : Docs) (m : MemberModifiers) : Parser (List ClassMember) := do
  let kind ← accessorKind
  match ← attempt propertyName with
  | none =>
    skip
    return []
  | some name =>
    let optional ← acceptMark .question
    if ← continuesAsMethod kind then
      let signature ← signature type
      let returns ← annotatedReturn type
      skipSemicolon
      return [.method ⟨docs, name, kind, signature, returns, optional, m.isStatic, m.isAbstract,
        m.visibility⟩]
    else
      let ty ← after (.punct .colon) type
      skipSemicolon
      return [.property ⟨docs, name, ty, optional, m.readonly, m.isStatic, m.isAbstract,
        m.visibility⟩]

/-- Reads one member of a class. -/
def classMember : Parser (List ClassMember) := do
  let docs ← docs
  let m ← memberModifiersFor .none (← turns)
  if (← check (.ident "constructor")) && (← peekAt 1) == .punct .lparen then
    skip
    let (_, params) ← params type
    skipSemicolon
    return [.constructor ⟨docs, m.visibility, params⟩]
  else if ← atIndexSignature then
    return [.index (← indexSignature type docs m.readonly)]
  else namedClassMember docs m

/-- Reads the types after a keyword, if the keyword stands here. -/
def typesAfter (k : Keyword) : Parser (List Ty) := do
  return (← after (.keyword k) (separated .comma type)).getD []

/-- Reads a class. -/
def classDecl (docs : Docs) (modifiers : Modifiers) (isAbstract : Bool) : Parser ClassDecl := do
  expectKeyword .classKw
  let name ← identifier
  let typeParams ← typeParams type
  let base ← after (.keyword .extendsKw) type
  let interfaces ← typesAfter .implements
  expectMark .lbrace
  let members ← many (atEnd .rbrace) classMember
  expectMark .rbrace
  return ⟨docs, modifiers, isAbstract, name, typeParams, base, interfaces, members⟩

/-! ## Other declarations -/

/-- Reads a function. -/
def functionDecl (docs : Docs) (modifiers : Modifiers) : Parser FunctionDecl := do
  expectKeyword .function
  let name ← identifier
  let signature ← signature type
  let returns ← annotatedReturn type
  skipSemicolon
  return ⟨docs, modifiers, name, signature, returns⟩

/-- Reads an interface. -/
def interfaceDecl (docs : Docs) (modifiers : Modifiers) : Parser InterfaceDecl := do
  expectKeyword .interface
  let name ← identifier
  let typeParams ← typeParams type
  let bases ← typesAfter .extendsKw
  let members ← members type
  return ⟨docs, modifiers, name, typeParams, bases, members⟩

/-- Reads a type alias. -/
def aliasDecl (docs : Docs) (modifiers : Modifiers) : Parser AliasDecl := do
  expectKeyword .type
  let name ← identifier
  let typeParams ← typeParams type
  expectMark .eq
  let ty ← type
  skipSemicolon
  return ⟨docs, modifiers, name, typeParams, ty⟩

/-- Reads an initializer after an equals sign, if there is one. -/
def optionalInitializer : Parser (Option String) := after (.punct .eq) initializer

/-- Reads one variable. -/
def variableDecl (modifiers : Modifiers) (kind : VariableKind) : Parser VariableDecl := do
  let name ← propertyName
  let ty ← after (.punct .colon) type
  let init ← optionalInitializer
  return ⟨[], modifiers, kind, name, ty, init⟩

/-- Gives documentation comments to the first of some variables. -/
def documentFirst (docs : Docs) : List VariableDecl → List VariableDecl
  | [] => []
  | d :: ds => { d with docs := docs } :: ds

/-- Reads the variables of a statement. Its documentation belongs to the first of them. -/
def variableDecls (docs : Docs) (modifiers : Modifiers) (kind : VariableKind) :
    Parser (List VariableDecl) := do
  skip
  let vars ← separated .comma (variableDecl modifiers kind)
  skipSemicolon
  return documentFirst docs vars

/-- Reads one member of an enum. -/
def enumMember : Parser EnumMember := do
  let docs ← docs
  let name ← propertyName
  let init ← optionalInitializer
  return ⟨docs, name, init⟩

/-- Reads an enum. -/
def enumDecl (docs : Docs) (modifiers : Modifiers) (isConst : Bool) : Parser EnumDecl := do
  expectKeyword .enum
  let name ← identifier
  expectMark .lbrace
  let members ← list .rbrace enumMember
  expectMark .rbrace
  return ⟨docs, modifiers, isConst, name, members⟩

/-- Reads one exported name. -/
def exportedName : Parser (String × Option String) := do
  let name ← identifier
  let exportedAs ← after (.keyword .asKw) identifier
  return (name, exportedAs)

/-- Reads exported names in braces. -/
def exportedNames : Parser (List (String × Option String)) := do
  expectMark .lbrace
  let names ← list .rbrace exportedName
  expectMark .rbrace
  skipSemicolon
  return names

/-! ## Statements -/

/-- Reads the statements in braces, given the parser for one of them. -/
def body (items : Parser (List Item)) : Parser (List Item) := do
  let found ← many (atEnd .rbrace) items
  expectMark .rbrace
  return found

/-- Reads the name and the statements of a namespace. -/
def namespaceBlock (items : Parser (List Item)) (docs : Docs) (modifiers : Modifiers) :
    Parser (Block Item) := do
  let words ← separated .dot identifier
  expectMark .lbrace
  let found ← body items
  return ⟨docs, modifiers, Text.joinWith "." words, found⟩

/-- Reads the statements of an ambient module, which may be missing altogether. -/
def ambientBlock (items : Parser (List Item)) (docs : Docs) (modifiers : Modifiers)
    (name : String) : Parser (Block Item) := do
  skip
  if ← acceptMark .lbrace then
    let found ← body items
    return ⟨docs, modifiers, name, found⟩
  else
    skipSemicolon
    return ⟨docs, modifiers, name, []⟩

/-- Reads the words `export` and `declare` in front of a statement, in at most the given number of
turns. -/
def modifiersFor (m : Modifiers) : Nat → Parser Modifiers
  | 0 => fail .tooDeep
  | n + 1 => do
    match ← peek with
    | .keyword .exportKw =>
      skip
      modifiersFor { m with exported := true } n
    | .keyword .declare =>
      skip
      modifiersFor { m with declared := true } n
    | _ => return m

/-- Reads the rest of an export statement that is no declaration, if it is one. -/
def plainExport : Parser (Option (List Item)) := do
  if ← acceptMark .eq then
    let name ← identifier
    skipSemicolon
    return some [.exports (.equals name)]
  else if (← checkKeyword .default) && (← peekAt 1).isIdentLike then
    skip
    let name ← identifier
    skipSemicolon
    return some [.exports (.default name)]
  else if ← checkKeyword .asKw then
    skipStatement
    return some []
  else return none

/-- Reads a declaration after its modifiers, given the parser for the statements in it. -/
def declaration (items : Parser (List Item)) (docs : Docs) (modifiers : Modifiers) :
    Parser (List Item) := do
  match ← peek with
  | .keyword .function => return [.function (← functionDecl docs modifiers)]
  | .keyword .interface => return [.interface (← interfaceDecl docs modifiers)]
  | .keyword .classKw => return [.cls (← classDecl docs modifiers false)]
  | .keyword .abstract =>
    skip
    if ← checkKeyword .classKw then return [.cls (← classDecl docs modifiers true)]
    else return []
  | .keyword .enum => return [.enum (← enumDecl docs modifiers false)]
  | .keyword .const =>
    if (← peekAt 1) == .keyword .enum then
      skip
      return [.enum (← enumDecl docs modifiers true)]
    else return (← variableDecls docs modifiers .constant).map .var
  | .keyword .letKw => return (← variableDecls docs modifiers .block).map .var
  | .keyword .var => return (← variableDecls docs modifiers .function).map .var
  | .keyword .type => return [.typeAlias (← aliasDecl docs modifiers)]
  | .keyword .namespaceKw =>
    skip
    return [.space (← namespaceBlock items docs modifiers)]
  | .keyword .moduleKw =>
    skip
    match ← peek with
    | .string name => return [.ambient (← ambientBlock items docs modifiers name)]
    | _ => return [.space (← namespaceBlock items docs modifiers)]
  | .keyword .importKw =>
    skipStatement
    return []
  | .ident "global" =>
    if (← peekAt 1) == .punct .lbrace then
      return [.space (← namespaceBlock items docs modifiers)]
    else
      skip
      return []
  | .punct .lbrace =>
    if modifiers.exported then return [.exports (.named (← exportedNames))]
    else
      skip
      return []
  | _ =>
    skip
    return []

/-- Reads one statement, given the parser for the statements in it. A token that begins no statement
is passed. -/
def itemsWith (items : Parser (List Item)) : Parser (List Item) := do
  let docs ← docs
  let modifiers ← modifiersFor .plain (← turns)
  let found ← if modifiers.exported then plainExport else pure none
  match found with
  | some found => return found
  | none => declaration items docs modifiers

/-- Reads one statement with at most the given number of levels of nesting. -/
def itemsAt : Nat → Parser (List Item)
  | 0 => fail .tooDeep
  | n + 1 => itemsWith (itemsAt n)

/-- Reads one statement of a file. Reference directives between statements are passed. -/
def fileItems : Parser (List Item) := do
  match ← peek with
  | .directive _ =>
    skip
    return []
  | _ => itemsAt (← turns)

/-- Reads a whole file. -/
def file : Parser (List Item) :=
  many (check .eof) fileItems

end DeclLayer.Parser

namespace DeclLayer

/-- Reads the statements of a source. -/
def parseItems (source : String) : Except SyntaxError (List Item) :=
  (Parser.file.run (.start source)).map Prod.fst

end DeclLayer
