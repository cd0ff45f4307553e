import DeclLayer.Parse.Item
import DeclLayer.Proofs.Render.Canonical
import DeclLayer.Render.Item

/-!
# The pieces of statements

`Item.pieces` lists the tokens and comments of the text of a statement, without the layout between
them. The statements that can be read back from their text are canonical: `Item.Canonical` asks for
names that are names where they stand, and for canonical types.
-/

namespace DeclLayer

open Token Comment

/-! ## Pieces -/

/-- The words before the keyword of a declaration. -/
def Modifiers.pieces (m : Modifiers) : List Piece :=
  piecesIf m.exported [word .exportKw] ++ piecesIf m.declared [word .declare]

/-- The word for the visibility of a class member. -/
def Visibility.words : Visibility → List Keyword
  | .everyone => []
  | .subclasses => [.protectedKw]
  | .owner => [.privateKw]

/-- The words in front of a class member. -/
def Parser.MemberModifiers.words (m : MemberModifiers) : List Keyword :=
  m.visibility.words ++ ((if m.isStatic then [.static] else []) ++
    ((if m.isAbstract then [.abstract] else []) ++ if m.readonly then [.readonly] else []))

/-- The keyword of a variable declaration. -/
def VariableKind.keyword : VariableKind → Keyword
  | .constant => .const
  | .block => .letKw
  | .function => .var

/-- An initializer that may be missing, after its equals sign. -/
def Token.initializerPieces (init : Option String) : List Piece :=
  (init.map fun text => [mark .eq, .verbatim text]).getD []

/-- Types after a word that leads to them, if there are any. -/
def Ty.piecesBases (lead : Keyword) (types : List Ty) : List Piece :=
  if types.isEmpty then [] else word lead :: separatedBy .comma (Ty.piecesList types)

/-- The pieces of a function, after its modifiers. -/
def FunctionDecl.body (d : FunctionDecl) : List Piece :=
  word .function :: .token (wordKind d.name) :: (Ty.piecesSignature d.signature ++
    (Ty.piecesAfter (.punct .colon) d.returns ++ [mark .semicolon]))

/-- The pieces of an interface, after its modifiers. -/
def InterfaceDecl.body (d : InterfaceDecl) : List Piece :=
  word .interface :: .token (wordKind d.name) :: (angledBy (Ty.piecesTypeParams d.typeParams) ++
    (Ty.piecesBases .extendsKw d.bases ++
    mark .lbrace :: (Ty.piecesMembers d.members ++ [mark .rbrace])))

/-- The pieces of a type alias, after its modifiers. -/
def AliasDecl.body (d : AliasDecl) : List Piece :=
  word .type :: .token (wordKind d.name) :: (angledBy (Ty.piecesTypeParams d.typeParams) ++
    mark .eq :: (d.type.pieces ++ [mark .semicolon]))

/-- The comments in front of a class member. -/
def ClassMember.docs : ClassMember → Docs
  | .property p => p.docs
  | .method m => m.docs
  | .constructor c => c.docs
  | .index i => i.docs

/-- What the words in front of a class member say. -/
def ClassMember.modifiers : ClassMember → Parser.MemberModifiers
  | .property p => ⟨p.visibility, p.isStatic, p.isAbstract, p.readonly⟩
  | .method m => ⟨m.visibility, m.isStatic, m.isAbstract, false⟩
  | .constructor c => ⟨c.visibility, false, false, false⟩
  | .index i => ⟨.everyone, false, false, i.readonly⟩

/-- The pieces of a class member, after the words in front of it. -/
def ClassMember.body : ClassMember → List Piece
  | .property p =>
    Token.name p.name :: (piecesIf p.optional [mark .question] ++
      (Ty.piecesAfter (.punct .colon) p.type ++ [mark .semicolon]))
  | .method m =>
    m.kind.pieces ++ Token.name m.name :: (piecesIf m.optional [mark .question] ++
      (Ty.piecesSignature m.signature ++ (Ty.piecesAfter (.punct .colon) m.returns ++
      [mark .semicolon])))
  | .constructor c =>
    .token (.ident "constructor") :: mark .lparen ::
      (separatedBy .comma (Ty.piecesParams c.params) ++ [mark .rparen, mark .semicolon])
  | .index i =>
    mark .lbracket :: .token (wordKind i.key) :: mark .colon :: (i.keyType.pieces ++
      mark .rbracket :: mark .colon :: (i.value.pieces ++ [mark .semicolon]))

/-- The pieces of a class member. -/
def ClassMember.pieces (m : ClassMember) : List Piece :=
  m.docs.map .doc ++ (m.modifiers.words.map word ++ m.body)

/-- The pieces of a class, after its modifiers. -/
def ClassDecl.body (d : ClassDecl) : List Piece :=
  piecesIf d.isAbstract [word .abstract] ++ word .classKw :: .token (wordKind d.name) ::
    (angledBy (Ty.piecesTypeParams d.typeParams) ++
    (Ty.piecesAfter (.keyword .extendsKw) d.base ++ (Ty.piecesBases .implements d.interfaces ++
    mark .lbrace :: (d.members.flatMap ClassMember.pieces ++ [mark .rbrace]))))

/-- The pieces of a variable, after its modifiers. -/
def VariableDecl.body (d : VariableDecl) : List Piece :=
  word d.kind.keyword :: Token.name d.name :: (Ty.piecesAfter (.punct .colon) d.type ++
    (initializerPieces d.initializer ++ [mark .semicolon]))

/-- The pieces of an enum member. -/
def EnumMember.pieces (m : EnumMember) : List Piece :=
  m.docs.map .doc ++ Token.name m.name :: initializerPieces m.initializer

/-- The pieces of an enum, after its modifiers. -/
def EnumDecl.body (d : EnumDecl) : List Piece :=
  piecesIf d.isConst [word .const] ++ word .enum :: .token (wordKind d.name) :: mark .lbrace ::
    (separatedBy .comma (d.members.map EnumMember.pieces) ++ [mark .rbrace])

/-- What leads to the statements of a namespace. The global scope has no keyword. -/
def Token.namespaceHead (name : String) : List Piece :=
  piecesIf (name != "global") [word .namespaceKw] ++ dotted name

/-- The pieces of an exported name. -/
def Export.namePieces (name : String × Option String) : List Piece :=
  .token (wordKind name.1) ::
    (name.2.map fun shown => [word .asKw, .token (wordKind shown)]).getD []

/-- The pieces of an export statement, after its first word. -/
def Export.body : Export → List Piece
  | .equals name => [mark .eq, .token (wordKind name), mark .semicolon]
  | .default name => [word .default, .token (wordKind name), mark .semicolon]
  | .named names =>
    mark .lbrace :: (separatedBy .comma (names.map Export.namePieces) ++
      [mark .rbrace, mark .semicolon])

mutual

/-- The pieces of a statement. What is never read has none. -/
def Item.pieces : Item → List Piece
  | .function d => d.docs.map .doc ++ (d.modifiers.pieces ++ d.body)
  | .interface d => d.docs.map .doc ++ (d.modifiers.pieces ++ d.body)
  | .typeAlias d => d.docs.map .doc ++ (d.modifiers.pieces ++ d.body)
  | .cls d => d.docs.map .doc ++ (d.modifiers.pieces ++ d.body)
  | .var d => d.docs.map .doc ++ (d.modifiers.pieces ++ d.body)
  | .enum d => d.docs.map .doc ++ (d.modifiers.pieces ++ d.body)
  | .space ⟨docs, modifiers, name, items⟩ =>
    docs.map .doc ++ (modifiers.pieces ++ (namespaceHead name ++ mark .lbrace ::
      (Item.piecesList items ++ [mark .rbrace])))
  | .ambient ⟨docs, modifiers, name, items⟩ =>
    docs.map .doc ++ (modifiers.pieces ++ (word .moduleKw :: .token (.string name) ::
      mark .lbrace :: (Item.piecesList items ++ [mark .rbrace])))
  | .exports e => word .exportKw :: e.body
  | .imports _ | .verbatim _ => []

/-- The pieces of statements. -/
def Item.piecesList : List Item → List Piece
  | [] => []
  | item :: items => item.pieces ++ Item.piecesList items

end

/-- The pieces of some statements, one after the other. -/
theorem Item.piecesList_eq (items : List Item) : piecesList items = items.flatMap pieces := by
  induction items with
  | nil => rfl
  | cons item items ih => rw [piecesList, ih, List.flatMap_cons]

/-! ## Canonical statements -/

/-- What is asked of a class member, next to what is asked of its types. -/
inductive ClassMember.Fits : ClassMember → Prop where
  | property {p : ClassProperty} (docs : ∀ doc ∈ p.docs, IsDoc doc) (name : IsMemberName p.name)
    (type : ∀ t ∈ p.type, 1 ≤ t.rank) : Fits (.property p)
  /-- A method with the name `constructor` would be a constructor. -/
  | method {m : ClassMethod} (name : IsMemberName m.name)
    (callable : Callable.Fits ⟨m.docs, m.signature, m.returns⟩)
    (constructor : m.name = "constructor" → m.kind = .method → m.optional = false →
      m.signature.typeParams ≠ []) : Fits (.method m)
  | constructor {c : ClassConstructor} (docs : ∀ doc ∈ c.docs, IsDoc doc)
    (params : ∀ p ∈ c.params, p.Fits) : Fits (.constructor c)
  | index {i : IndexSignature Ty} (index : i.Fits) : Fits (.index i)

/-- The types among some parts are canonical. -/
def Part.Canonical (parts : List Part) : Prop :=
  ∀ u, .type u ∈ parts → u.Canonical

/-- A type parameter is written so that it can be read. -/
structure TypeParam.Canonical (p : TypeParam Ty) : Prop where
  fits : p.Fits
  types : Part.Canonical p.parts

/-- A signature with its return type is written so that it can be read. -/
structure Callable.Canonical (c : Callable Ty) : Prop where
  fits : c.Fits
  types : Part.Canonical c.parts

/-- A member is written so that it can be read. -/
structure Member.Canonical (m : Member Ty) : Prop where
  fits : m.Fits
  types : Part.Canonical m.parts

/-- A class member is written so that it can be read. -/
structure ClassMember.Canonical (m : ClassMember) : Prop where
  fits : m.Fits
  types : Part.Canonical m.parts

/-- What is asked of an enum member. -/
structure EnumMember.Fits (m : EnumMember) : Prop where
  docs : ∀ doc ∈ m.docs, IsDoc doc
  name : Parser.IsPropertyName m.name
  initializer : ∀ text ∈ m.initializer, Parser.IsInitializer text

/-- What is asked of an export statement. -/
def Export.Fits : Export → Prop
  | .equals name => isIdent name = true
  | .default name => isIdent name = true
  | .named names => ∀ name ∈ names, isIdent name.1 = true ∧ ∀ shown ∈ name.2, isIdent shown = true

/-- A statement is written so that it can be read, down to its last part. -/
inductive Item.Canonical : Item → Prop where
  | function {d : FunctionDecl} (name : isIdent d.name = true)
    (callable : Callable.Canonical ⟨d.docs, d.signature, d.returns⟩) : Canonical (.function d)
  | interface {d : InterfaceDecl} (docs : ∀ doc ∈ d.docs, IsDoc doc) (name : isIdent d.name = true)
    (typeParams : ∀ p ∈ d.typeParams, p.Canonical)
    (bases : ∀ t ∈ d.bases, t.Canonical ∧ 1 ≤ t.rank) (members : ∀ m ∈ d.members, m.Canonical) :
    Canonical (.interface d)
  | typeAlias {d : AliasDecl} (docs : ∀ doc ∈ d.docs, IsDoc doc) (name : isIdent d.name = true)
    (typeParams : ∀ p ∈ d.typeParams, p.Canonical) (type : d.type.Canonical)
    (rank : 1 ≤ d.type.rank) : Canonical (.typeAlias d)
  | cls {d : ClassDecl} (docs : ∀ doc ∈ d.docs, IsDoc doc) (name : isIdent d.name = true)
    (typeParams : ∀ p ∈ d.typeParams, p.Canonical) (base : ∀ t ∈ d.base, t.Canonical ∧ 1 ≤ t.rank)
    (interfaces : ∀ t ∈ d.interfaces, t.Canonical ∧ 1 ≤ t.rank)
    (members : ∀ m ∈ d.members, m.Canonical) : Canonical (.cls d)
  /-- A constant with the name `enum` would be an enum. -/
  | var {d : VariableDecl} (docs : ∀ doc ∈ d.docs, IsDoc doc) (name : Parser.IsPropertyName d.name)
    (enum : d.kind = .constant → d.name ≠ "enum") (type : ∀ t ∈ d.type, t.Canonical ∧ 1 ≤ t.rank)
    (initializer : ∀ text ∈ d.initializer, Parser.IsInitializer text) : Canonical (.var d)
  | enum {d : EnumDecl} (docs : ∀ doc ∈ d.docs, IsDoc doc) (name : isIdent d.name = true)
    (members : ∀ m ∈ d.members, m.Fits) : Canonical (.enum d)
  | space {b : Block Item} (docs : ∀ doc ∈ b.docs, IsDoc doc)
    (name : ∀ w ∈ nameWords b.name, isIdent w = true) (items : ∀ item ∈ b.items, Canonical item) :
    Canonical (.space b)
  | ambient {b : Block Item} (docs : ∀ doc ∈ b.docs, IsDoc doc)
    (items : ∀ item ∈ b.items, Canonical item) : Canonical (.ambient b)
  | exports {e : Export} (fits : e.Fits) : Canonical (.exports e)

end DeclLayer
