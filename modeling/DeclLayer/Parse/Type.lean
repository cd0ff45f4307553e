import DeclLayer.Parse.Cursor

/-!
# Reading types

The grammar of types. Each piece of it is a parser that is given the parser `ty` for the types
nested in it, and `typeAt` ties the knot: a type nested inside another one begins at a later token,
so one level more than there are tokens ahead is always enough.

From loose to tight binding the grammar has six levels: a conditional type, a union, an
intersection, an operator, a suffix, and a primary type.
-/

namespace DeclLayer.Parser

/-! ## Pieces that hold types -/

/-- Passes the words `in`, `out` and `const` in front of the name of a type parameter. -/
def skipVariance : Nat → Parser Unit
  | 0 => fail .tooDeep
  | n + 1 => do
    match ← peek with
    | .keyword .inKw | .keyword .out | .keyword .const =>
      if (← peekAt 1).isIdentLike then
        skip
        skipVariance n
    | _ => return ()

/-- Reads one type parameter. -/
def typeParam (ty : Parser Ty) : Parser (TypeParam Ty) := do
  skipVariance (← turns)
  let name ← identifier
  let constraint ← after (.keyword .extendsKw) ty
  let default ← after (.punct .eq) ty
  return ⟨name, constraint, default⟩

/-- Reads type parameters up to the closing mark, in at most the given number of turns. There is at
least one of them. -/
def typeParamsFor (ty : Parser Ty) : Nat → Parser (List (TypeParam Ty))
  | 0 => fail .tooDeep
  | n + 1 => do
    let first ← typeParam ty
    if ← acceptMark .comma then
      if ← checkMark .rangle then return [first]
      let others ← typeParamsFor ty n
      return first :: others
    else return [first]

/-- Reads the type parameters in angle brackets, if there are any. -/
def typeParams (ty : Parser Ty) : Parser (List (TypeParam Ty)) := do
  if ← acceptMark .langle then
    let params ← typeParamsFor ty (← turns)
    expectMark .rangle
    return params
  else return []

/-- Reads type arguments in angle brackets. -/
def typeArgs (ty : Parser Ty) : Parser (List Ty) := do
  expectMark .langle
  let args ← separated .comma ty
  expectMark .rangle
  return args

/-- Reads type arguments if there are any. -/
def optionalTypeArgs (ty : Parser Ty) : Parser (List Ty) := do
  if ← checkMark .langle then typeArgs ty else return []

/-- Passes the words in front of a parameter that would make it a property of a class. -/
def skipParamModifiers : Nat → Parser Unit
  | 0 => fail .tooDeep
  | n + 1 => do
    match ← peek with
    | .keyword .publicKw | .keyword .privateKw | .keyword .protectedKw | .keyword .readonly =>
      match ← peekAt 1 with
      | .punct .colon | .punct .question | .punct .comma | .punct .rparen => return ()
      | _ =>
        skip
        skipParamModifiers n
    | _ => return ()

/-- One entry of a list of parameters. -/
inductive ParamEntry where
  /-- The declared type of `this`. -/
  | this (type : Ty)
  | param (p : Param Ty)

/-- Reads one entry of a list of parameters. -/
def paramEntry (ty : Parser Ty) : Parser ParamEntry := do
  if (← checkKeyword .this) && (← peekAt 1) == .punct .colon then
    skip
    skip
    return .this (← ty)
  skipParamModifiers (← turns)
  let rest ← acceptMark .ellipsis
  let name ←
    if (← checkMark .lbrace) || (← checkMark .lbracket) then balanced else identifier
  let optional ← acceptMark .question
  let type ← after (.punct .colon) ty
  return .param ⟨name, type, optional, rest⟩

/-- The parameters among the entries. -/
def paramsOf (entries : List ParamEntry) : List (Param Ty) :=
  entries.filterMap fun
    | .param p => some p
    | .this _ => none

/-- The declared type of `this` among the entries: the last one counts. -/
def thisTypeOf (entries : List ParamEntry) : Option Ty :=
  (entries.filterMap fun
    | .this type => some type
    | .param _ => none).getLast?

/-- Reads parameters in round brackets. -/
def params (ty : Parser Ty) : Parser (Option Ty × List (Param Ty)) := do
  expectMark .lparen
  let entries ← list .rparen (paramEntry ty)
  expectMark .rparen
  return (thisTypeOf entries, paramsOf entries)

/-- Reads a signature: type parameters, if there are any, and parameters. -/
def signature (ty : Parser Ty) : Parser (Signature Ty) := do
  let typeParams ← typeParams ty
  let (thisType, params) ← params ty
  return ⟨typeParams, thisType, params⟩

/-- Whether a token can name the subject of a type predicate. -/
def isPredicateParam (kind : Kind) : Bool :=
  kind == .keyword .this || kind.isIdentLike

/-- Reads the subject of a type predicate. -/
def predicateParam : Parser String := do
  if ← acceptKeyword .this then return "this" else identifier

/-- Reads a type in return position, where it can be a predicate. -/
def returnType (ty : Parser Ty) : Parser Ty := do
  let kind ← peek
  let following ← peekAt 1
  if kind == .ident "asserts" && isPredicateParam following then
    skip
    let param ← predicateParam
    let type ← after (.keyword .is) ty
    return .predicate true param type
  else if isPredicateParam kind && following == .keyword .is then
    let param ← predicateParam
    expectKeyword .is
    let type ← ty
    return .predicate false param (some type)
  else ty

/-- Reads a return type after a colon, if there is one. -/
def annotatedReturn (ty : Parser Ty) : Parser (Option Ty) :=
  after (.punct .colon) (returnType ty)

/-! ## Members -/

/-- Whether an index signature begins at the current token. -/
def atIndexSignature : Parser Bool := do
  return (← checkMark .lbracket) && (← peekAt 1).isIdentLike && (← peekAt 2) == .punct .colon

/-- Passes the mark after a member. -/
def skipMemberEnd : Parser Unit := do
  discard (acceptMark .semicolon)
  discard (acceptMark .comma)

/-- Reads an index signature. -/
def indexSignature (ty : Parser Ty) (docs : Docs) (readonly : Bool) :
    Parser (IndexSignature Ty) := do
  expectMark .lbracket
  let key ← identifier
  expectMark .colon
  let keyType ← ty
  expectMark .rbracket
  expectMark .colon
  let value ← ty
  skipMemberEnd
  return ⟨docs, key, keyType, value, readonly⟩

/-- Reads the word that makes a member an accessor, if it is one. A member can also have such a word
for its name. -/
def accessorKind : Parser MethodKind := do
  let kind := match ← peek with
    | .ident "get" => MethodKind.get
    | .ident "set" => MethodKind.set
    | _ => MethodKind.method
  if kind != .method && (← peekAt 1).startsPropertyName then
    skip
    return kind
  else return .method

/-- Whether a member with a name of the given kind goes on as a method. -/
def continuesAsMethod (kind : MethodKind) : Parser Bool := do
  return kind != .method || (← checkMark .lparen) || (← checkMark .langle)

/-- Reads a signature with its return type and the mark after it. -/
def callable (ty : Parser Ty) (docs : Docs) : Parser (Callable Ty) := do
  let signature ← signature ty
  let returns ← annotatedReturn ty
  skipMemberEnd
  return ⟨docs, signature, returns⟩

/-- Reads a member that has a name. A property without a type can be anything. A token that begins
no name is passed, and there is no member. -/
def namedMember (ty : Parser Ty) (docs : Docs) (readonly : Bool) : Parser (List (Member Ty)) := do
  let kind ← accessorKind
  match ← attempt propertyName with
  | none =>
    skip
    return []
  | some name =>
    let optional ← acceptMark .question
    if ← continuesAsMethod kind then
      let ⟨docs, signature, returns⟩ ← callable ty docs
      return [.method ⟨docs, name, kind, signature, returns, optional⟩]
    else
      let type ← after (.punct .colon) ty
      skipMemberEnd
      return [.property ⟨docs, name, type.getD (.primitive .any), optional, readonly⟩]

/-- Reads one member of an interface or an object type. -/
def member (ty : Parser Ty) : Parser (List (Member Ty)) := do
  let docs ← docs
  let readonly := (← checkKeyword .readonly) && (← isModifier)
  if readonly then skip
  if ← atIndexSignature then
    return [.index (← indexSignature ty docs readonly)]
  else if (← checkMark .lparen) || (← checkMark .langle) then
    return [.call (← callable ty docs)]
  else if (← checkKeyword .new) &&
      ((← peekAt 1) == .punct .lparen || (← peekAt 1) == .punct .langle) then
    skip
    let ⟨docs, signature, returns⟩ ← callable ty docs
    return [.construct ⟨docs, { signature with thisType := none }, returns⟩]
  else namedMember ty docs readonly

/-- Reads members in braces. -/
def members (ty : Parser Ty) : Parser (List (Member Ty)) := do
  expectMark .lbrace
  let members ← many (atEnd .rbrace) (member ty)
  expectMark .rbrace
  return members

/-! ## Primary types -/

/-- The primitive type that a keyword names. -/
def primitiveOf? : Keyword → Option Primitive
  | .string => some .string
  | .number => some .number
  | .boolean => some .boolean
  | .void => some .void
  | .null => some .null
  | .undefined => some .undefined
  | .any => some .any
  | .unknown => some .unknown
  | .never => some .never
  | .object => some .object
  | .symbol => some .symbol
  | .bigint => some .bigint
  | _ => none

/-- Reads a type that is taken from another module. A dot without a word after it leaves an empty
qualifier. -/
def importedType (ty : Parser Ty) (isTypeof : Bool) : Parser Ty := do
  expectKeyword .importKw
  expectMark .lparen
  match ← peek with
  | .string module =>
    skip
    expectMark .rparen
    let qualifier ←
      if ← checkMark .dot then
        let tail ← qualifiedTail
        pure (some (String.ofList (tail.toList.drop 1)))
      else pure none
    let args ← optionalTypeArgs ty
    return .imported module qualifier args isTypeof
  | kind => fail (.expectedModuleSpecifier kind)

/-- Reads what follows `typeof`. -/
def typeOfType (ty : Parser Ty) : Parser Ty := do
  if ← checkKeyword .importKw then importedType ty true
  else
    let head ← predicateParam
    let tail ← qualifiedTail
    return .typeOf (head ++ tail)

/-- Reads a function type after its signature's first token. -/
def functionType (ty : Parser Ty) : Parser (Signature Ty × Ty) := do
  let signature ← signature ty
  expectMark .arrow
  let returns ← returnType ty
  return (signature, returns)

/-- Reads parameters with an arrow after them. -/
def arrowParams (ty : Parser Ty) : Parser (Option (Option Ty × List (Param Ty))) := do
  match ← attempt (params ty) with
  | none => return none
  | some found => if ← acceptMark .arrow then return some found else return none

/-- Reads a type that begins with a round bracket: a function type if parameters and an arrow can be
read, and a type in brackets otherwise. -/
def bracketType (ty : Parser Ty) : Parser Ty := do
  let start ← get
  match ← arrowParams ty with
  | some (thisType, params) =>
    let returns ← returnType ty
    return .function ⟨[], thisType, params⟩ returns
  | none =>
    set start
    expectMark .lparen
    let inner ← ty
    expectMark .rparen
    return .paren inner

/-- Whether the braces at the current token hold a mapped type. -/
def atMappedType : Parser Bool := do
  let offset ← match ← peekAt 1 with
    | .keyword .readonly => pure 1
    | .punct .plus | .punct .minus =>
      if (← peekAt 2) == .keyword .readonly then pure 2 else pure 0
    | _ => pure 0
  return (← peekAt (1 + offset)) == .punct .lbracket && (← peekAt (2 + offset)).isIdentLike &&
    (← peekAt (3 + offset)) == .keyword .inKw

/-- Reads a modifier of a mapped type, with or without a sign. -/
def mappedModifier (word : Kind) : Parser (Option MappedModifier) := do
  if ← accept word then return some .preserve
  else if ← acceptMark .plus then
    expect word
    return some .add
  else if ← acceptMark .minus then
    expect word
    return some .remove
  else return none

/-- Reads a mapped type. -/
def mappedType (ty : Parser Ty) : Parser Ty := do
  expectMark .lbrace
  let readonly ← mappedModifier (.keyword .readonly)
  expectMark .lbracket
  let key ← identifier
  expectKeyword .inKw
  let keys ← ty
  let nameType ← after (.keyword .asKw) ty
  expectMark .rbracket
  let optional ← mappedModifier (.punct .question)
  expectMark .colon
  let value ← ty
  discard (acceptMark .semicolon)
  expectMark .rbrace
  return .mapped key keys nameType value readonly optional

/-- Reads an object type or a mapped type. -/
def braceType (ty : Parser Ty) : Parser Ty := do
  if ← atMappedType then mappedType ty else return .object (← members ty)

/-- Whether the current token names a tuple element. -/
def atElementName : Parser Bool := do
  return (← peek).isIdentLike && ((← peekAt 1) == .punct .colon ||
    ((← peekAt 1) == .punct .question && (← peekAt 2) == .punct .colon))

/-- Reads one element of a tuple type. -/
def tupleElement (ty : Parser Ty) : Parser (TupleElement Ty) := do
  let rest ← acceptMark .ellipsis
  if ← atElementName then
    let name ← identifier
    let optional ← acceptMark .question
    expectMark .colon
    let type ← ty
    return ⟨type, some name, optional, rest⟩
  else
    let type ← ty
    let optional ← acceptMark .question
    return ⟨type, none, optional, rest⟩

/-- Reads a tuple type. -/
def tupleType (ty : Parser Ty) : Parser Ty := do
  expectMark .lbracket
  let elements ← list .rbracket (tupleElement ty)
  expectMark .rbracket
  return .tuple elements

/-- Reads a reference with its type arguments. -/
def referenceType (ty : Parser Ty) : Parser Ty := do
  let head ← identifier
  let tail ← qualifiedTail
  let args ← optionalTypeArgs ty
  return .named (head ++ tail) args

/-- Reads a number after a minus sign. -/
def negativeNumber : Parser Ty := do
  match ← peek with
  | .number text =>
    skip
    return .number ("-" ++ text)
  | kind => fail (.expectedNumber kind)

/-- Reads a type that begins with a keyword. -/
def keywordType (ty : Parser Ty) (k : Keyword) : Parser Ty := do
  match k with
  | .trueKw =>
    skip
    return .boolean true
  | .falseKw =>
    skip
    return .boolean false
  | .typeof =>
    skip
    typeOfType ty
  | .importKw => importedType ty false
  | .this =>
    skip
    return .this
  | .new =>
    skip
    let (signature, returns) ← functionType ty
    return .construct false signature returns
  | k =>
    match primitiveOf? k with
    | some p =>
      skip
      return .primitive p
    | none =>
      if k == .abstract && (← peekAt 1) == .keyword .new then
        skip
        skip
        let (signature, returns) ← functionType ty
        return .construct true signature returns
      else if k.contextual then referenceType ty
      else fail (.unexpectedInType (.keyword k))

/-- Reads a type that no operator or suffix belongs to. -/
def primaryType (ty : Parser Ty) : Parser Ty := do
  match ← peek with
  | .keyword k => keywordType ty k
  | .ident _ => referenceType ty
  | .string value =>
    skip
    return .string value
  | .number text =>
    skip
    return .number text
  | .template raw =>
    skip
    return .template raw
  | .punct .minus =>
    skip
    negativeNumber
  | .punct .lparen => bracketType ty
  | .punct .lbrace => braceType ty
  | .punct .lbracket => tupleType ty
  | .punct .langle =>
    let (signature, returns) ← functionType ty
    return .function signature returns
  | kind => fail (.unexpectedInType kind)

/-! ## Levels of binding -/

/-- Reads the suffixes of a type, in at most the given number of turns. -/
def suffixes (ty : Parser Ty) (head : Ty) : Nat → Parser Ty
  | 0 => fail .tooDeep
  | n + 1 => do
    if ← acceptMark .lbracket then
      if ← acceptMark .rbracket then suffixes ty (.array head) n
      else
        let key ← ty
        expectMark .rbracket
        suffixes ty (.index head key) n
    else return head

/-- Reads a primary type with its suffixes. -/
def suffixedType (ty : Parser Ty) : Parser Ty := do
  let head ← primaryType ty
  suffixes ty head (← turns)

/-- Reads a type with the operators in front of it, in at most the given number of turns. -/
def operatorTypeFor (ty : Parser Ty) : Nat → Parser Ty
  | 0 => fail .tooDeep
  | n + 1 => do
    match ← peek with
    | .keyword .keyof =>
      skip
      return .keyOf (← operatorTypeFor ty n)
    | .keyword .readonly =>
      skip
      return .readonly (← operatorTypeFor ty n)
    | .keyword .infer =>
      skip
      return .infer (← identifier)
    | .ident name =>
      if name == "unique" && (← peekAt 1) == .keyword .symbol then
        skip
        skip
        return .uniqueSymbol
      else suffixedType ty
    | _ => suffixedType ty

/-- Reads a type with the operators in front of it. -/
def operatorType (ty : Parser Ty) : Parser Ty := do
  operatorTypeFor ty (← turns)

/-- A type made of parts by `combine`, unless there is only one part. -/
def combined (combine : List Ty → Ty) : List Ty → Ty
  | [single] => single
  | parts => combine parts

/-- Reads an intersection. A mark may stand in front of the first part. -/
def intersectionType (ty : Parser Ty) : Parser Ty := do
  discard (acceptMark .amp)
  return combined .intersection (← separated .amp (operatorType ty))

/-- Reads a union. A mark may stand in front of the first part. -/
def unionType (ty : Parser Ty) : Parser Ty := do
  discard (acceptMark .pipe)
  return combined .union (← separated .pipe (intersectionType ty))

/-- Reads a type, given the parser for the types in it. -/
def typeWith (ty : Parser Ty) : Parser Ty := do
  let check ← unionType ty
  if ← acceptKeyword .extendsKw then
    let bound ← unionType ty
    expectMark .question
    let whenTrue ← ty
    expectMark .colon
    let whenFalse ← ty
    return .conditional check bound whenTrue whenFalse
  else return check

/-- Reads a type with at most the given number of levels of nesting. -/
def typeAt : Nat → Parser Ty
  | 0 => fail .tooDeep
  | n + 1 => typeWith (typeAt n)

/-- Reads a type. -/
def type : Parser Ty := do
  typeAt (← turns)

end DeclLayer.Parser

namespace DeclLayer

/-- Reads a source that is one type. -/
def Ty.parse (source : String) : Except SyntaxError Ty :=
  let whole : Parser Ty := do
    let ty ← Parser.type
    let kind ← Parser.peek
    if kind == .eof then return ty else Parser.fail (.unexpectedAfterType kind)
  (whole.run (.start source)).map Prod.fst

end DeclLayer
