import DeclLayer.Proofs.Parse.ItemProgress

/-!
# Reading comes to an end

A source is read in as many steps as its tokens allow. The parsers of the grammar are listed in
`Rule`, each with the tokens that it passes at least (`Pace`), and the loops of the grammar in
`Loop`, each with what is done in one turn.

From any place in the tokens, a parser goes forward and stays in the tokens, a turn of a loop passes
a token or is the last one, and the bounds on turns and on nesting do not show, since a bound of one
more than the tokens ahead is never reached (`ReadsForward`).
-/

namespace DeclLayer.Parser

variable {α : Type}

/-! ## The parsers of the grammar -/

/-- Whether a parser that succeeds has passed a token: always, or unless it began at the end, or
maybe. -/
inductive Pace where
  | always
  | beforeEnd
  | maybe

/-- How many tokens are passed at least, of those ahead. -/
def Pace.least (ahead : Nat) : Pace → Nat
  | .always => 1
  | .beforeEnd => min 1 ahead
  | .maybe => 0

/-- The parsers of the grammar, each with its pace. The types and statements in a piece are read
by `type` and `item`. -/
inductive Rule : {α : Type} → Pace → Parser α → Prop
  -- tokens, names and source text
  | expectMark (mark : Punct) : Rule .always (expectMark mark)
  | expectKeyword (word : Keyword) : Rule .always (expectKeyword word)
  | identifier : Rule .always identifier
  | propertyName : Rule .always propertyName
  | qualifiedTail : Rule .maybe qualifiedTail
  | balanced : Rule .beforeEnd balanced
  | initializer : Rule .maybe initializer
  | skipStatement : Rule .beforeEnd skipStatement
  -- pieces that hold types
  | typeParam : Rule .always (typeParam type)
  | typeParams : Rule .maybe (typeParams type)
  | typeArgs : Rule .always (typeArgs type)
  | optionalTypeArgs : Rule .maybe (optionalTypeArgs type)
  | paramEntry : Rule .always (paramEntry type)
  | params : Rule .always (params type)
  | signature : Rule .always (signature type)
  | predicateParam : Rule .always predicateParam
  | returnType : Rule .always (returnType type)
  | annotatedReturn : Rule .maybe (annotatedReturn type)
  -- members
  | skipMemberEnd : Rule .maybe skipMemberEnd
  | accessorKind : Rule .maybe accessorKind
  | indexSignature (docs : Docs) (readonly : Bool) :
      Rule .always (indexSignature type docs readonly)
  | callable (docs : Docs) : Rule .always (callable type docs)
  | namedMember (docs : Docs) (readonly : Bool) : Rule .beforeEnd (namedMember type docs readonly)
  | member : Rule .beforeEnd (member type)
  | members : Rule .always (members type)
  -- types
  | importedType (isTypeof : Bool) : Rule .always (importedType type isTypeof)
  | typeOfType : Rule .always (typeOfType type)
  | functionType : Rule .always (functionType type)
  | arrowParams : Rule .maybe (arrowParams type)
  | bracketType : Rule .always (bracketType type)
  | mappedModifier {word : Kind} (hword : word ≠ .eof) : Rule .maybe (mappedModifier word)
  | mappedType : Rule .always (mappedType type)
  | braceType : Rule .always (braceType type)
  | tupleElement : Rule .always (tupleElement type)
  | tupleType : Rule .always (tupleType type)
  | referenceType : Rule .always (referenceType type)
  | negativeNumber : Rule .maybe negativeNumber
  | keywordType (word : Keyword) : Rule .beforeEnd (keywordType type word)
  | primaryType : Rule .always (primaryType type)
  | suffixedType : Rule .always (suffixedType type)
  | operatorType : Rule .always (operatorType type)
  | intersectionType : Rule .always (intersectionType type)
  | unionType : Rule .always (unionType type)
  | type : Rule .always type
  -- classes
  | skipSemicolon : Rule .maybe skipSemicolon
  | namedClassMember (docs : Docs) (modifiers : MemberModifiers) :
      Rule .beforeEnd (namedClassMember docs modifiers)
  | classMember : Rule .beforeEnd classMember
  | typesAfter (word : Keyword) : Rule .maybe (typesAfter word)
  | classDecl (docs : Docs) (modifiers : Modifiers) (isAbstract : Bool) :
      Rule .always (classDecl docs modifiers isAbstract)
  -- other declarations
  | functionDecl (docs : Docs) (modifiers : Modifiers) : Rule .always (functionDecl docs modifiers)
  | interfaceDecl (docs : Docs) (modifiers : Modifiers) :
      Rule .always (interfaceDecl docs modifiers)
  | aliasDecl (docs : Docs) (modifiers : Modifiers) : Rule .always (aliasDecl docs modifiers)
  | optionalInitializer : Rule .maybe optionalInitializer
  | variableDecl (modifiers : Modifiers) (kind : VariableKind) :
      Rule .always (variableDecl modifiers kind)
  | variableDecls (docs : Docs) (modifiers : Modifiers) (kind : VariableKind) :
      Rule .always (variableDecls docs modifiers kind)
  | enumMember : Rule .always enumMember
  | enumDecl (docs : Docs) (modifiers : Modifiers) (isConst : Bool) :
      Rule .always (enumDecl docs modifiers isConst)
  | exportedName : Rule .always exportedName
  | exportedNames : Rule .always exportedNames
  -- statements
  | body : Rule .always (body item)
  | namespaceBlock (docs : Docs) (modifiers : Modifiers) :
      Rule .always (namespaceBlock item docs modifiers)
  | ambientBlock (docs : Docs) (modifiers : Modifiers) (name : String) :
      Rule .maybe (ambientBlock item docs modifiers name)
  | plainExport : Rule .maybe plainExport
  | declaration (docs : Docs) (modifiers : Modifiers) :
      Rule .beforeEnd (declaration item docs modifiers)
  | item : Rule .beforeEnd item
  | fileItems : Rule .beforeEnd fileItems
  | file : Rule .maybe file

/-- A parser of the grammar agrees with itself from every place, at its pace. -/
theorem Rule.agrees {pace : Pace} {p : Parser α} (h : Rule pace p) (ahead n : Nat) :
    Agrees ahead (n + 1) (pace.least ahead) p p := by
  have hbefore {α : Type} {p : Parser α} (h : ∀ m, m ≤ 1 → Agrees m (n + 1) m p p) :
      Agrees ahead (n + 1) (Pace.beforeEnd.least ahead) p p :=
    (h _ (Nat.min_le_left 1 ahead)).mono (Nat.min_le_right 1 ahead) (Nat.le_refl _)
  cases h with
  | expectMark => exact .expectMark _
  | expectKeyword => exact .expectKeyword _
  | identifier => exact .identifier
  | propertyName => exact .propertyName
  | qualifiedTail => exact .qualifiedTail
  | balanced => exact hbefore fun _ => .balanced
  | initializer => exact .initializer
  | skipStatement => exact hbefore fun _ => .skipStatement
  | typeParam => exact .typeParam .type
  | typeParams => exact .typeParams .type
  | typeArgs => exact .typeArgs .type
  | optionalTypeArgs => exact .optionalTypeArgs .type
  | paramEntry => exact .paramEntry .type
  | params => exact .params .type
  | signature => exact .signature .type
  | predicateParam => exact .predicateParam
  | returnType => exact .returnType .type
  | annotatedReturn => exact .annotatedReturn .type
  | skipMemberEnd => exact .skipMemberEnd
  | accessorKind => exact .accessorKind
  | indexSignature => exact .indexSignature .type
  | callable => exact .callable .type
  | namedMember => exact hbefore fun _ => .namedMember .type
  | member => exact hbefore fun _ => .member .type
  | members => exact .members .type
  | importedType => exact .importedType .type
  | typeOfType => exact .typeOfType .type
  | functionType => exact .functionType .type
  | arrowParams => exact .arrowParams .type
  | bracketType => exact .bracketType .type
  | mappedModifier hword => exact .mappedModifier hword
  | mappedType => exact .mappedType .type
  | braceType => exact .braceType .type
  | tupleElement => exact .tupleElement .type
  | tupleType => exact .tupleType .type
  | referenceType => exact .referenceType .type
  | negativeNumber => exact .negativeNumber
  | keywordType => exact hbefore fun _ => .keywordType .type _
  | primaryType => exact .primaryType .type
  | suffixedType => exact .suffixedType .type
  | operatorType => exact .operatorType .type
  | intersectionType => exact .intersectionType .type
  | unionType => exact .unionType .type
  | type => exact .type
  | skipSemicolon => exact .skipSemicolon
  | namedClassMember => exact hbefore fun _ => .namedClassMember
  | classMember => exact hbefore fun _ => .classMember
  | typesAfter => exact .typesAfter
  | classDecl => exact .classDecl
  | functionDecl => exact .functionDecl
  | interfaceDecl => exact .interfaceDecl
  | aliasDecl => exact .aliasDecl
  | optionalInitializer => exact .optionalInitializer
  | variableDecl => exact .variableDecl
  | variableDecls => exact .variableDecls
  | enumMember => exact .enumMember
  | enumDecl => exact .enumDecl
  | exportedName => exact .exportedName
  | exportedNames => exact .exportedNames
  | body => exact .body (.item (Nat.le_refl 1))
  | namespaceBlock => exact .namespaceBlock (.item (Nat.le_refl 1))
  | ambientBlock => exact .ambientBlock (.item (Nat.le_refl 1))
  | plainExport => exact .plainExport
  | declaration => exact hbefore fun _ => .declaration (.item (Nat.le_refl 1))
  | item => exact hbefore fun _ => .item
  | fileItems => exact hbefore fun _ => .fileItems
  | file => exact .file

/-! ## The loops of the grammar -/

/-- Repeats a turn until one says that no other follows, in at most the given number of turns. -/
def repeatFor (turn : Parser (List α × Bool)) : Nat → Parser (List α)
  | 0 => fail .tooDeep
  | n + 1 => do
    let (found, goesOn) ← turn
    if goesOn then
      let others ← repeatFor turn n
      return found ++ others
    else return found

/-- One turn of the loop `manyFor`. -/
def manyTurn (isOver : Parser Bool) (piece : Parser (List α)) : Parser (List α × Bool) := do
  if ← isOver then return ([], false)
  let found ← piece
  return (found, true)

/-- One turn of the loop `listFor`. -/
def listTurn (close : Punct) (element : Parser α) : Parser (List α × Bool) := do
  if ← atEnd close then return ([], false)
  let first ← element
  let goesOn ← acceptMark .comma
  return ([first], goesOn)

/-- One turn of the loop `typeParamsFor`. -/
def typeParamsTurn (ty : Parser Ty) : Parser (List (TypeParam Ty) × Bool) := do
  let first ← typeParam ty
  if ← acceptMark .comma then
    let isOver ← checkMark .rangle
    return ([first], !isOver)
  else return ([first], false)

/-- The loop `manyFor` repeats its turn. -/
theorem manyFor_eq_repeatFor (isOver : Parser Bool) (piece : Parser (List α)) (t : Nat) :
    manyFor isOver piece t = repeatFor (manyTurn isOver piece) t := by
  induction t with
  | zero => rfl
  | succ t ih =>
    rw [manyFor, repeatFor, ih]
    generalize repeatFor (manyTurn isOver piece) t = others
    rw [manyTurn, bind_assoc]
    refine bind_congr fun ended => ?_
    cases ended with
    | true => rfl
    | false => simp only [Bool.false_eq_true, if_false, if_true, bind_assoc, pure_bind]

/-- The loop `listFor` repeats its turn. -/
theorem listFor_eq_repeatFor (close : Punct) (element : Parser α) (t : Nat) :
    listFor close element t = repeatFor (listTurn close element) t := by
  induction t with
  | zero => rfl
  | succ t ih =>
    rw [listFor, repeatFor, ih]
    generalize repeatFor (listTurn close element) t = others
    rw [listTurn, bind_assoc]
    refine bind_congr fun ended => ?_
    cases ended with
    | true => rfl
    | false =>
      simp only [Bool.false_eq_true, if_false, bind_assoc, pure_bind, List.singleton_append]

/-- The loop `typeParamsFor` repeats its turn. -/
theorem typeParamsFor_eq_repeatFor (ty : Parser Ty) (t : Nat) :
    typeParamsFor ty t = repeatFor (typeParamsTurn ty) t := by
  induction t with
  | zero => rfl
  | succ t ih =>
    rw [typeParamsFor, repeatFor, ih]
    generalize repeatFor (typeParamsTurn ty) t = others
    rw [typeParamsTurn, bind_assoc]
    refine bind_congr fun first => ?_
    rw [bind_assoc]
    refine bind_congr fun comma => ?_
    cases comma with
    | false => rfl
    | true =>
      simp only [if_true, bind_assoc, pure_bind]
      refine bind_congr fun ended => ?_
      cases ended with
      | true => rfl
      | false => rfl

/-- The loops of the grammar, each with its turn. -/
inductive Loop : {α : Type} → Parser (List α × Bool) → (Nat → Parser (List α)) → Prop
  | file : Loop (manyTurn (check .eof) fileItems) (manyFor (check .eof) fileItems)
  | block : Loop (manyTurn (atEnd .rbrace) item) (manyFor (atEnd .rbrace) item)
  | members : Loop (manyTurn (atEnd .rbrace) (member type)) (manyFor (atEnd .rbrace) (member type))
  | classMembers : Loop (manyTurn (atEnd .rbrace) classMember) (manyFor (atEnd .rbrace) classMember)
  | enumMembers : Loop (listTurn .rbrace enumMember) (listFor .rbrace enumMember)
  | params : Loop (listTurn .rparen (paramEntry type)) (listFor .rparen (paramEntry type))
  | typeParams : Loop (typeParamsTurn type) (typeParamsFor type)
  | tupleElements :
      Loop (listTurn .rbracket (tupleElement type)) (listFor .rbracket (tupleElement type))
  | exportedNames : Loop (listTurn .rbrace exportedName) (listFor .rbrace exportedName)

namespace Loop

variable {turn : Parser (List α × Bool)} {run : Nat → Parser (List α)} {l n t t' : Nat}

/-- Every loop of the grammar repeats its turn. -/
theorem run_eq (h : Loop turn run) : run = repeatFor turn := by
  funext t
  cases h with
  | file | block | members | classMembers => exact manyFor_eq_repeatFor _ _ t
  | enumMembers | params | tupleElements | exportedNames => exact listFor_eq_repeatFor _ _ t
  | typeParams => exact typeParamsFor_eq_repeatFor _ t

/-- A loop is the same for all bounds that are more than the number of tokens ahead. -/
theorem agrees (h : Loop turn run) (ht : n ≤ t) (ht' : n ≤ t') :
    Agrees l n 0 (run t) (run t') := by
  cases h with
  | file => exact .manyFor Agrees.testsEnd_eof (.fileItems (Nat.le_refl 1)) (Nat.le_refl n) ht ht'
  | block => exact .manyFor (Agrees.testsEnd_atEnd _) (.item (Nat.le_refl 1)) (Nat.le_refl n) ht ht'
  | members =>
    exact .manyFor (Agrees.testsEnd_atEnd _) (.member .type (Nat.le_refl 1)) (Nat.le_succ n) ht ht'
  | classMembers =>
    exact .manyFor (Agrees.testsEnd_atEnd _) (.classMember (Nat.le_refl 1)) (Nat.le_refl n) ht ht'
  | enumMembers => exact .listFor (Agrees.enumMember.weaken) (Nat.le_refl n) ht ht'
  | params => exact .listFor (Agrees.paramEntry .type).weaken (Nat.le_refl n) ht ht'
  | typeParams => exact (Agrees.typeParamsFor .type (Nat.le_succ n) ht ht').weaken
  | tupleElements => exact .listFor (Agrees.tupleElement .type).weaken (Nat.le_refl n) ht ht'
  | exportedNames => exact .listFor (Agrees.exportedName.weaken) (Nat.le_refl n) ht ht'

/-- A loop with a test for its end goes on only after it has passed a token. -/
theorem passes_of_test {isOver : Parser Bool} {rest : Parser (List α × Bool)} {c c' : Cursor}
    {found : List α} (htest : Agrees.TestsEnd isOver) (hpasses : ∀ n, Agrees 1 (n + 1) 1 rest rest)
    (hc : c.last.kind = .eof)
    (h : (isOver >>= fun ended => if ended = true then pure ([], false) else rest) c =
      .ok ((found, true), c')) : c.Passes 1 c' := by
  obtain ⟨ended, hended, hahead⟩ := htest c hc
  have h : (isOver c >>= fun x => (if x.1 = true then pure ([], false) else rest) x.2) =
      .ok ((found, true), c') := h
  rw [hended] at h
  cases ended with
  | true => cases h
  | false =>
    have hrest : rest c = .ok ((found, true), c') := h
    have hreaches := (hpasses _ c hc (hahead rfl) (Nat.lt_succ_self _)).2
    rwa [hrest] at hreaches

/-- A turn after which another follows passes a token. -/
theorem passes (h : Loop turn run) {c c' : Cursor} {found : List α} (hc : c.last.kind = .eof)
    (hturn : turn c = .ok ((found, true), c')) : c.Passes 1 c' := by
  have hmany {α : Type} {isOver : Parser Bool} {piece : Parser (List α)} {found : List α}
      (htest : Agrees.TestsEnd isOver) (hpiece : ∀ n, Agrees 1 (n + 1) 1 piece piece)
      (hturn : manyTurn isOver piece c = .ok ((found, true), c')) : c.Passes 1 c' :=
    passes_of_test htest (fun n => .pass (hpiece n) fun _ => .pure) hc hturn
  have hlist {α : Type} {close : Punct} {element : Parser α} {found : List α}
      (helement : ∀ n, Agrees 1 (n + 1) 1 element element)
      (hturn : listTurn close element c = .ok ((found, true), c')) : c.Passes 1 c' :=
    passes_of_test (Agrees.testsEnd_atEnd close)
      (fun n => .pass (helement n) fun _ => .bind (.acceptMark _) fun _ => .pure) hc hturn
  cases h with
  | file => exact hmany Agrees.testsEnd_eof (fun _ => .fileItems (Nat.le_refl 1)) hturn
  | block => exact hmany (Agrees.testsEnd_atEnd _) (fun _ => .item (Nat.le_refl 1)) hturn
  | members => exact hmany (Agrees.testsEnd_atEnd _) (fun _ => .member .type (Nat.le_refl 1)) hturn
  | classMembers =>
    exact hmany (Agrees.testsEnd_atEnd _) (fun _ => .classMember (Nat.le_refl 1)) hturn
  | enumMembers => exact hlist (fun _ => .enumMember) hturn
  | params => exact hlist (fun _ => .paramEntry .type) hturn
  | tupleElements => exact hlist (fun _ => .tupleElement .type) hturn
  | exportedNames => exact hlist (fun _ => .exportedName) hturn
  | typeParams =>
    have hpasses (n : Nat) : Agrees 0 (n + 1) 1 (typeParamsTurn type) (typeParamsTurn type) :=
      .pass (.typeParam .type) fun _ => .bind (.acceptMark _) fun _ =>
        .ite (.look (Agrees.looks_check _) fun _ => .pure) .pure
    have hreaches := (hpasses _ c hc (Nat.zero_le _) (Nat.lt_succ_self _)).2
    rwa [hturn] at hreaches

end Loop

/-! ## Reading from a place -/

/-- Reading from a place goes forward and comes to an end. -/
structure ReadsForward (c : Cursor) : Prop where
  /-- A parser of the grammar answers a later place in the tokens, as its pace says, or an error
  that is not about turns or nesting. -/
  rule {α : Type} {pace : Pace} {p : Parser α} :
    Rule pace p → Reaches c (pace.least c.rest.length) (p c)
  /-- A loop is its turn, repeated. -/
  repeats {α : Type} {turn : Parser (List α × Bool)} {run : Nat → Parser (List α)} :
    Loop turn run → run = repeatFor turn
  /-- A turn that is not the last one has passed a token. -/
  turn {α : Type} {turn : Parser (List α × Bool)} {run : Nat → Parser (List α)} {found : List α}
    {c' : Cursor} : Loop turn run → turn c = .ok ((found, true), c') → c.Passes 1 c'
  /-- More turns than there are tokens ahead are never used up. -/
  turns {α : Type} {turn : Parser (List α × Bool)} {run : Nat → Parser (List α)} {t : Nat} :
    Loop turn run → c.rest.length < t →
      run t c = run (c.rest.length + 1) c ∧ Reaches c 0 (run t c)
  /-- If no arrow follows the parameters, a type in brackets is read from the same place. The type
  in the brackets is read with fewer tokens ahead. -/
  retry {c' : Cursor} : arrowParams type c = .ok (none, c') →
    bracketType type c = (do
      expectMark .lparen
      let inner ← type
      expectMark .rparen
      return .paren inner : Parser Ty) c ∧
    ∀ c₁, expectMark .lparen c = .ok ((), c₁) → c.Passes 1 c₁
  /-- More operators than there are tokens ahead are not met. -/
  operators {t : Nat} : c.rest.length < t → operatorTypeFor type t c = operatorType type c
  /-- More levels of types than there are tokens ahead are not met. -/
  typeLevels {t : Nat} : c.rest.length < t → typeAt t c = type c
  /-- A type is read as if there was no bound on the levels. -/
  type_eq : type c = typeWith type c
  /-- More levels of statements than there are tokens ahead are not met. -/
  itemLevels {t : Nat} : c.rest.length < t → itemsAt t c = item c
  /-- A statement is read as if there was no bound on the levels. -/
  item_eq : item c = itemsWith item c

/-- The second try begins at the first place again. -/
theorem bracketType_retry {c c' : Cursor} (h : arrowParams type c = .ok (none, c')) :
    bracketType type c = (do
      expectMark .lparen
      let inner ← type
      expectMark .rparen
      return .paren inner : Parser Ty) c := by
  show (arrowParams type c >>= fun x => _) = _
  rw [h]
  rfl

/-- From every place with the token of the end behind it, reading goes forward. -/
theorem readsForward {c : Cursor} (hc : c.last.kind = .eof) : ReadsForward c where
  rule h := (h.agrees _ c.rest.length c hc (Nat.le_refl _) (Nat.lt_succ_self _)).2
  repeats h := h.run_eq
  turn h hturn := h.passes hc hturn
  turns h ht := h.agrees ht (Nat.le_refl _) c hc (Nat.zero_le _) (Nat.lt_succ_self _)
  retry h := by
    refine ⟨bracketType_retry h, fun c₁ h₁ => ?_⟩
    have hmark : Agrees 0 (c.rest.length + 1) 1 (expectMark .lparen) _ := .expectMark .lparen
    have hreaches := (hmark c hc (Nat.zero_le _) (Nat.lt_succ_self _)).2
    rwa [h₁] at hreaches
  operators ht := (Agrees.operatorTypeFor .type (Nat.le_refl (c.rest.length + 1)) ht (Nat.le_refl _)
    c hc (Nat.zero_le _) (Nat.lt_succ_self _)).1
  typeLevels ht := (Agrees.typeAt_type ht c hc (Nat.zero_le _) (Nat.lt_succ_self _)).1
  type_eq := Parser.type_eq hc
  itemLevels ht :=
    (Agrees.itemsAt_item (Nat.zero_le 1) ht c hc (Nat.zero_le _) (Nat.lt_succ_self _)).1
  item_eq := Parser.item_eq hc

/-- A source is not refused for its nesting. -/
theorem Agrees.cause_ne_tooDeep {p : Parser α} (h : ∀ n, Agrees 0 n 0 p p) {source : String}
    {e : SyntaxError} (he : (p.run (.start source)).map Prod.fst = .error e) :
    e.cause ≠ .tooDeep := by
  have hreaches := (h _ _ (Cursor.start_last source) (Nat.zero_le _) (Nat.lt_succ_self _)).2
  have he : (p (.start source)).map Prod.fst = .error e := he
  cases hp : p (.start source) with
  | ok r => rw [hp] at he; cases he
  | error e' =>
    rw [hp] at he hreaches
    cases he
    exact hreaches

/-- Every source is read or refused, for what it holds at some token and not for the number of turns
or levels that it takes. From every place in the tokens, reading goes forward. -/
theorem reading_ends :
    (∀ source e, parseItems source = .error e → e.cause ≠ .tooDeep) ∧
    (∀ source e, Ty.parse source = .error e → e.cause ≠ .tooDeep) ∧
    ∀ c : Cursor, c.last.kind = .eof → ReadsForward c := by
  refine ⟨fun source e he => ?_, fun source e he => ?_, fun c hc => readsForward hc⟩
  · exact Agrees.cause_ne_tooDeep (fun _ => .file) he
  · refine Agrees.cause_ne_tooDeep (fun n => ?_) he
    exact .bind .type fun _ => .peek fun _ _ _ _ => .ite .pure (.fail (by simp))

/-- A bracket that is not closed is refused where the source ends. -/
theorem reading_ends_open_bracket :
    (Ty.parse "((" = .error ⟨.unexpectedInType .eof, 2⟩ ∧
      SyntaxCause.unexpectedInType .eof ≠ .tooDeep) ∧
    (Cursor.start "((").last.kind = .eof ∧ ReadsForward (Cursor.start "((") := by
  have herror : Ty.parse "((" = .error ⟨.unexpectedInType .eof, 2⟩ := by with_unfolding_all rfl
  have hlast : (Cursor.start "((").last.kind = .eof := by with_unfolding_all rfl
  exact ⟨⟨herror, reading_ends.2.1 _ _ herror⟩, hlast, reading_ends.2.2 _ hlast⟩

end DeclLayer.Parser
