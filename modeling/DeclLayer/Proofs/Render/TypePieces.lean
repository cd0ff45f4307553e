import DeclLayer.Proofs.Parse.Names
import DeclLayer.Proofs.Tree.Parts
import DeclLayer.Render.Type

/-!
# The pieces of types

`Ty.pieces` lists the tokens and comments of the text of a type, without the layout between them.
-/

namespace DeclLayer

open Token

/-- A keyword as a piece. -/
abbrev Token.word (k : Keyword) : Piece := .token (.keyword k)

/-- A mark as a piece. -/
abbrev Token.mark (p : Punct) : Piece := .token (.punct p)

/-- Pieces in angle brackets, if there are any. -/
def Token.angledBy (parts : List (List Piece)) : List Piece :=
  if parts.isEmpty then [] else mark .langle :: (separatedBy .comma parts ++ [mark .rangle])

/-- Pieces if a condition holds. -/
def Token.piecesIf (condition : Bool) (ps : List Piece) : List Piece :=
  if condition then ps else []

/-- A number, which may have a sign. -/
def Token.numberPieces (text : String) : List Piece :=
  match text.toList with
  | '-' :: digits => [mark .minus, .token (.number (String.ofList digits))]
  | _ => [.token (.number text)]

/-- The word before the name of an accessor. -/
def MethodKind.pieces : MethodKind → List Piece
  | .method => []
  | .get => [.token (.ident "get")]
  | .set => [.token (.ident "set")]

/-- A modifier of a mapped type. -/
def MappedModifier.pieces (kind : Kind) : Option MappedModifier → List Piece
  | none => []
  | some .add => [mark .plus, .token kind]
  | some .remove => [mark .minus, .token kind]
  | some .preserve => [.token kind]

mutual

/-- The pieces of a type. -/
def Ty.pieces : Ty → List Piece
  | .named name args => dotted name ++ angledBy (Ty.piecesList args)
  | .primitive p => [.token (wordKind p.text)]
  | .string value => [.token (.string value)]
  | .number text => numberPieces text
  | .boolean value => [word (if value then .trueKw else .falseKw)]
  | .union types => separatedBy .pipe (Ty.piecesList types)
  | .intersection types => separatedBy .amp (Ty.piecesList types)
  | .function signature returns =>
    Ty.piecesSignature signature ++ mark .arrow :: returns.pieces
  | .construct isAbstract signature returns =>
    piecesIf isAbstract [word .abstract] ++ word .new ::
      (Ty.piecesSignature signature ++ mark .arrow :: returns.pieces)
  | .object members => mark .lbrace :: (Ty.piecesMembers members ++ [mark .rbrace])
  | .array element => element.pieces ++ [mark .lbracket, mark .rbracket]
  | .tuple elements =>
    mark .lbracket :: (separatedBy .comma (Ty.piecesElements elements) ++ [mark .rbracket])
  | .typeOf name => word .typeof :: dotted name
  | .keyOf type => word .keyof :: type.pieces
  | .readonly type => word .readonly :: type.pieces
  | .uniqueSymbol => [.token (.ident "unique"), word .symbol]
  | .index target key => target.pieces ++ mark .lbracket :: (key.pieces ++ [mark .rbracket])
  | .conditional check bound whenTrue whenFalse =>
    check.pieces ++ word .extendsKw :: (bound.pieces ++ mark .question ::
      (whenTrue.pieces ++ mark .colon :: whenFalse.pieces))
  | .mapped key keys nameType value readonlyMod optionalMod =>
    mark .lbrace :: (MappedModifier.pieces (.keyword .readonly) readonlyMod ++ mark .lbracket ::
      .token (wordKind key) :: word .inKw :: (keys.pieces ++
      (Ty.piecesAfter (.keyword .asKw) nameType ++ mark .rbracket ::
      (MappedModifier.pieces (.punct .question) optionalMod ++ mark .colon ::
      (value.pieces ++ [mark .semicolon, mark .rbrace])))))
  | .infer name => [word .infer, .token (wordKind name)]
  | .template raw => [.token (.template raw)]
  | .imported module qualifier args isTypeof =>
    piecesIf isTypeof [word .typeof] ++ word .importKw :: mark .lparen :: .token (.string module) ::
      mark .rparen :: ((match qualifier with
        | some q => dottedRest (nameWords q)
        | none => []) ++ angledBy (Ty.piecesList args))
  | .predicate asserts param type =>
    piecesIf asserts [.token (.ident "asserts")] ++
      .token (wordKind param) :: Ty.piecesAfter (.keyword .is) type
  | .paren type => mark .lparen :: (type.pieces ++ [mark .rparen])
  | .this => [word .this]

/-- The pieces of types, each on its own. -/
def Ty.piecesList : List Ty → List (List Piece)
  | [] => []
  | ty :: tys => ty.pieces :: Ty.piecesList tys

/-- The pieces of a type that may be missing, after the token that leads to it. -/
def Ty.piecesAfter (lead : Kind) : Option Ty → List Piece
  | none => []
  | some ty => .token lead :: ty.pieces

/-- The pieces of type parameters, each on its own. -/
def Ty.piecesTypeParams : List (TypeParam Ty) → List (List Piece)
  | [] => []
  | ⟨name, constraint, default⟩ :: ps =>
    (.token (wordKind name) :: (Ty.piecesAfter (.keyword .extendsKw) constraint ++
      Ty.piecesAfter (.punct .eq) default)) :: Ty.piecesTypeParams ps

/-- The pieces of parameters, each on its own. -/
def Ty.piecesParams : List (Param Ty) → List (List Piece)
  | [] => []
  | ⟨name, type, optional, rest⟩ :: ps =>
    (piecesIf rest [mark .ellipsis] ++ Token.name name :: (piecesIf optional [mark .question] ++
      Ty.piecesAfter (.punct .colon) type)) :: Ty.piecesParams ps

/-- The pieces of the type of `this`, as an entry of a list of parameters. -/
def Ty.piecesThis : Option Ty → List (List Piece)
  | none => []
  | some ty => [word .this :: mark .colon :: ty.pieces]

/-- The pieces of a signature. -/
def Ty.piecesSignature : Signature Ty → List Piece
  | ⟨typeParams, thisType, params⟩ =>
    angledBy (Ty.piecesTypeParams typeParams) ++ mark .lparen ::
      (separatedBy .comma (Ty.piecesThis thisType ++ Ty.piecesParams params) ++ [mark .rparen])

/-- The pieces of tuple elements, each on its own. -/
def Ty.piecesElements : List (TupleElement Ty) → List (List Piece)
  | [] => []
  | ⟨type, name, optional, rest⟩ :: es =>
    (piecesIf rest [mark .ellipsis] ++
      (match name with
        | some name => .token (wordKind name) ::
            (piecesIf optional [mark .question] ++ mark .colon :: type.pieces)
        | none => type.pieces ++ piecesIf optional [mark .question])) ::
      Ty.piecesElements es

/-- The pieces of members. -/
def Ty.piecesMembers : List (Member Ty) → List Piece
  | [] => []
  | .property ⟨docs, name, type, optional, isReadonly⟩ :: ms =>
    docs.map .doc ++ (piecesIf isReadonly [word .readonly] ++ Token.name name ::
      (piecesIf optional [mark .question] ++ mark .colon ::
      (type.pieces ++ mark .semicolon :: Ty.piecesMembers ms)))
  | .method ⟨docs, name, kind, signature, returns, optional⟩ :: ms =>
    docs.map .doc ++ (kind.pieces ++ Token.name name :: (piecesIf optional [mark .question] ++
      (Ty.piecesSignature signature ++ (Ty.piecesAfter (.punct .colon) returns ++
      mark .semicolon :: Ty.piecesMembers ms))))
  | .call ⟨docs, signature, returns⟩ :: ms =>
    docs.map .doc ++ (Ty.piecesSignature signature ++ (Ty.piecesAfter (.punct .colon) returns ++
      mark .semicolon :: Ty.piecesMembers ms))
  | .construct ⟨docs, signature, returns⟩ :: ms =>
    docs.map .doc ++ (word .new :: (Ty.piecesSignature signature ++
      (Ty.piecesAfter (.punct .colon) returns ++ mark .semicolon :: Ty.piecesMembers ms)))
  | .index ⟨docs, key, keyType, value, isReadonly⟩ :: ms =>
    docs.map .doc ++ (piecesIf isReadonly [word .readonly] ++ mark .lbracket ::
      .token (wordKind key) :: mark .colon :: (keyType.pieces ++ mark .rbracket :: mark .colon ::
      (value.pieces ++ mark .semicolon :: Ty.piecesMembers ms)))

end

/-! ## Pieces of what holds types -/

/-- The pieces of a type parameter. -/
def TypeParam.pieces (p : TypeParam Ty) : List Piece :=
  .token (wordKind p.name) :: (Ty.piecesAfter (.keyword .extendsKw) p.constraint ++
    Ty.piecesAfter (.punct .eq) p.default)

/-- The pieces of a parameter. -/
def Param.pieces (p : Param Ty) : List Piece :=
  piecesIf p.rest [mark .ellipsis] ++ Token.name p.name :: (piecesIf p.optional [mark .question] ++
    Ty.piecesAfter (.punct .colon) p.type)

/-- The pieces of a tuple element. -/
def TupleElement.pieces (e : TupleElement Ty) : List Piece :=
  piecesIf e.rest [mark .ellipsis] ++
    (match e.name with
      | some name => .token (wordKind name) ::
          (piecesIf e.optional [mark .question] ++ mark .colon :: e.type.pieces)
      | none => e.type.pieces ++ piecesIf e.optional [mark .question])

/-- The pieces of a call or construct signature, without the comments in front. -/
def Callable.pieces (c : Callable Ty) : List Piece :=
  Ty.piecesSignature c.signature ++
    (Ty.piecesAfter (.punct .colon) c.returns ++ [mark .semicolon])

/-- The pieces of an index signature, without the comments in front. -/
def IndexSignature.pieces (i : IndexSignature Ty) : List Piece :=
  piecesIf i.readonly [word .readonly] ++ mark .lbracket :: .token (wordKind i.key) ::
    mark .colon :: (i.keyType.pieces ++ mark .rbracket :: mark .colon ::
    (i.value.pieces ++ [mark .semicolon]))

/-- The comments in front of a member. -/
def Member.docs {τ : Type} : Member τ → Docs
  | .property p => p.docs
  | .method m => m.docs
  | .call c => c.docs
  | .construct c => c.docs
  | .index i => i.docs

/-- The pieces of a member, without the comments in front. -/
def Member.body : Member Ty → List Piece
  | .property p =>
    piecesIf p.readonly [word .readonly] ++ Token.name p.name ::
      (piecesIf p.optional [mark .question] ++ mark .colon :: (p.type.pieces ++ [mark .semicolon]))
  | .method m =>
    m.kind.pieces ++ Token.name m.name :: (piecesIf m.optional [mark .question] ++
      Callable.pieces ⟨m.docs, m.signature, m.returns⟩)
  | .call c => c.pieces
  | .construct c => word .new :: c.pieces
  | .index i => i.pieces

/-- The pieces of a member. -/
def Member.pieces (m : Member Ty) : List Piece :=
  m.docs.map .doc ++ m.body

namespace Ty

/-- The pieces of some types, one by one. -/
theorem piecesList_eq (tys : List Ty) : piecesList tys = tys.map pieces := by
  induction tys with
  | nil => rfl
  | cons ty tys ih => rw [piecesList, ih, List.map_cons]

/-- The pieces of a type that may be missing, with a token in front of it. -/
theorem piecesAfter_eq (lead : Kind) (ty : Option Ty) :
    piecesAfter lead ty = (ty.map fun ty => .token lead :: ty.pieces).getD [] := by
  cases ty <;> rfl

/-- The pieces of some type parameters, one by one. -/
theorem piecesTypeParams_eq (ps : List (TypeParam Ty)) :
    piecesTypeParams ps = ps.map TypeParam.pieces := by
  induction ps with
  | nil => rfl
  | cons p ps ih => rw [piecesTypeParams, ih, List.map_cons, TypeParam.pieces]

/-- The pieces of some parameters, one by one. -/
theorem piecesParams_eq (ps : List (Param Ty)) : piecesParams ps = ps.map Param.pieces := by
  induction ps with
  | nil => rfl
  | cons p ps ih => rw [piecesParams, ih, List.map_cons, Param.pieces]

/-- The pieces of the declared type of `this`, as one more parameter. -/
theorem piecesThis_eq (ty : Option Ty) :
    piecesThis ty = ty.toList.map fun ty => word .this :: mark .colon :: ty.pieces := by
  cases ty <;> rfl

/-- The pieces of some tuple elements, one by one. -/
theorem piecesElements_eq (es : List (TupleElement Ty)) :
    piecesElements es = es.map TupleElement.pieces := by
  induction es with
  | nil => rfl
  | cons e es ih =>
    obtain ⟨type, name, optional, rest⟩ := e
    cases name <;> rw [piecesElements, ih, List.map_cons, TupleElement.pieces]

/-- The pieces of some members, one after the other. -/
theorem piecesMembers_eq (ms : List (Member Ty)) : piecesMembers ms = ms.flatMap Member.pieces := by
  induction ms with
  | nil => rfl
  | cons m ms ih =>
    cases m <;>
      simp [piecesMembers, ih, Member.pieces, Member.docs, Member.body, Callable.pieces,
        IndexSignature.pieces]

end Ty

end DeclLayer
