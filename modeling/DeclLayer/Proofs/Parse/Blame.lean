import DeclLayer.Proofs.Parse.ItemProgress

/-!
# Where sources are refused

A parser refuses a source at a token that it has come to. Said of every place that it can begin at
(`Parser.Blames`): if the parser fails, the error is at one of the tokens from there on, the token
of the end among them, and if it succeeds, the tokens from its new place on are some of these. A
chain of such parsers is such a parser, whatever it reads. So is a parser that tries another one,
gives up and goes on from the place where the try began: the error of the try is dropped, and the
tokens from that place on are still ahead (`Blames.attempt`, `Blames.bracketType`).

The statement is a class, so that a chain of steps is known from its steps. A parser is taken apart
only where it looks at what it has found, and where several branches go on in the same way.
-/

namespace DeclLayer

namespace Cursor

/-- The tokens that can become current from a place on: those ahead, and that of the end. -/
def ahead (c : Cursor) : List Token :=
  c.rest ++ [c.last]

/-- The current token is one of those from its place on. -/
theorem current_mem_ahead (c : Cursor) : c.current ∈ c.ahead := by
  rw [current, ahead]
  cases c.rest with
  | nil => exact List.mem_singleton.2 rfl
  | cons t ts => exact List.mem_cons_self

/-- The tokens from a later place on are among those from this one on. -/
theorem ahead_suffix (c : Cursor) {rest : List Token} (h : rest <:+ c.rest) :
    ({ c with rest := rest } : Cursor).ahead <:+ c.ahead := by
  obtain ⟨front, hfront⟩ := h
  exact ⟨front, by rw [ahead, ahead, ← hfront, List.append_assoc]⟩

/-- From the first place of a source on, all its tokens are ahead. -/
theorem ahead_start (source : String) : (Cursor.start source).ahead = Token.scan source := by
  obtain ⟨front, last, hscan⟩ := (List.eq_nil_or_concat (Token.scan source)).resolve_left
    (Token.locate_ne_nil 0 [] _)
  rw [ahead, start, hscan, List.concat_eq_append, List.dropLast_concat, List.getLast?_concat]
  rfl

end Cursor

namespace Parser

variable {α β : Type} {p q : Parser α} {f : α → Parser β} {ts us : List Token}

/-- A result that stays in some tokens: a place with some of the last of them ahead, or an error at
one of them. -/
def StaysIn (ts : List Token) : Except SyntaxError (α × Cursor) → Prop
  | .ok (_, c) => c.ahead <:+ ts
  | .error e => ∃ t ∈ ts, t.start = e.pos

/-- A result that stays in some tokens stays in more of them. -/
theorem StaysIn.mono {r : Except SyntaxError (α × Cursor)} (h : StaysIn ts r) (hts : ts <:+ us) :
    StaysIn us r := by
  cases r with
  | ok r => exact List.IsSuffix.trans h hts
  | error e =>
    obtain ⟨t, ht, hpos⟩ := h
    exact ⟨t, hts.subset ht, hpos⟩

/-- A result that is used stays in the tokens if its use does. -/
theorem StaysIn.bind {r : Except SyntaxError (α × Cursor)}
    {k : α × Cursor → Except SyntaxError (β × Cursor)} (h : StaysIn ts r)
    (hk : ∀ a c, c.ahead <:+ ts → StaysIn ts (k (a, c))) : StaysIn ts (r >>= k) := by
  cases r with
  | ok r => exact hk r.1 r.2 h
  | error e => exact h

/-- From every place, the results of a parser stay in the tokens from there on. -/
class Blames (p : Parser α) : Prop where
  staysIn (c : Cursor) : StaysIn c.ahead (p c)

namespace Blames

/-! ## Chains -/

instance pure {a : α} : Blames (Pure.pure a : Parser α) :=
  ⟨fun _ => List.suffix_rfl⟩

instance fail {cause : SyntaxCause} : Blames (fail cause : Parser α) :=
  ⟨fun c => ⟨c.current, c.current_mem_ahead, rfl⟩⟩

/-- The second parser of a chain begins among the tokens that are ahead of the first one. -/
theorem bind [hp : Blames p] (hf : ∀ a, Blames (f a)) : Blames (p >>= f) :=
  ⟨fun c => (hp.staysIn c).bind fun a c' hc' => ((hf a).staysIn c').mono hc'⟩

instance [Blames p] [hf : ∀ a, Blames (f a)] : Blames (p >>= f) := bind hf

/-- A choice between two parsers that blame what is ahead is one. -/
theorem ite {P : Prop} [Decidable P] (hp : Blames p) (hq : Blames q) :
    Blames (if P then p else q) := by
  split
  · exact hp
  · exact hq

instance {P : Prop} [Decidable P] [hp : Blames p] [hq : Blames q] :
    Blames (if P then p else q) := ite hp hq

/-- A parser that only looks at what is ahead. -/
theorem of_looks (h : Agrees.Looks p) : Blames p := by
  refine ⟨fun c => ?_⟩
  obtain ⟨a, ha⟩ := h c
  rw [ha]
  exact List.suffix_rfl

instance discard [Blames p] : Blames (discard p) :=
  inferInstanceAs (Blames (p >>= fun _ => Pure.pure ()))

/-! ## Single tokens -/

instance peekAt {n : Nat} : Blames (peekAt n) := of_looks (Agrees.looks_peekAt n)

instance peek : Blames peek := of_looks (Agrees.looks_peekAt 0)

instance check {kind : Kind} : Blames (check kind) := of_looks (Agrees.looks_check kind)

instance checkMark {mark : Punct} : Blames (checkMark mark) := check

instance checkKeyword {word : Keyword} : Blames (checkKeyword word) := check

instance docs : Blames docs := of_looks Agrees.looks_docs

instance turns : Blames turns := of_looks fun c => ⟨c.rest.length + 1, rfl⟩

instance skip : Blames skip := ⟨fun c => c.ahead_suffix (List.tail_suffix _)⟩

instance accept {kind : Kind} : Blames (accept kind) :=
  bind fun _ => inferInstance

instance acceptMark {mark : Punct} : Blames (acceptMark mark) := accept

instance acceptKeyword {word : Keyword} : Blames (acceptKeyword word) := accept

instance expect {kind : Kind} : Blames (expect kind) :=
  bind fun _ => inferInstance

instance expectMark {mark : Punct} : Blames (expectMark mark) := expect

instance expectKeyword {word : Keyword} : Blames (expectKeyword word) := expect

/-! ## Choices and loops -/

/-- The error of a try is not reported. -/
instance attempt [hp : Blames p] : Blames (attempt p) := by
  refine ⟨fun c => ?_⟩
  have hresult := hp.staysIn c
  rw [Parser.attempt]
  cases hpc : p c with
  | error e => exact List.suffix_rfl
  | ok r =>
    rw [hpc] at hresult
    exact hresult

instance after {kind : Kind} [Blames p] : Blames (after kind p) :=
  bind fun _ => inferInstance

instance atEnd {close : Punct} : Blames (atEnd close) :=
  bind fun _ => inferInstance

section

variable {isOver : Parser Bool} {piece : Parser (List α)} {close separator : Punct} {n : Nat}

instance manyFor [Blames isOver] [Blames piece] : Blames (manyFor isOver piece n) := by
  induction n with
  | zero => exact fail
  | succ n ih =>
    rw [Parser.manyFor]
    infer_instance

instance many [Blames isOver] [Blames piece] : Blames (many isOver piece) :=
  bind fun _ => manyFor

instance listFor [Blames p] : Blames (listFor close p n) := by
  induction n with
  | zero => exact fail
  | succ n ih =>
    rw [Parser.listFor]
    infer_instance

instance list [Blames p] : Blames (list close p) :=
  bind fun _ => listFor

instance moreFor [Blames p] : Blames (moreFor separator p n) := by
  induction n with
  | zero => exact fail
  | succ n ih =>
    rw [Parser.moreFor]
    infer_instance

instance more [Blames p] : Blames (more separator p) :=
  bind fun _ => moreFor

instance separated [Blames p] : Blames (separated separator p) :=
  bind fun _ => inferInstance

end

/-! ## Source text -/

/-- Source text is cut out of the tokens ahead, from the front. -/
theorem sourceText {pass : Nat → List Token → Nat × List Token}
    (h : ∀ start ts, (pass start ts).2 <:+ ts) : Blames (sourceText pass) :=
  ⟨fun c => c.ahead_suffix (h _ _)⟩

instance balanced : Blames balanced :=
  sourceText (Agrees.passBalanced_suffix 0)

instance initializer : Blames initializer :=
  have := sourceText (Agrees.passInitializer_suffix 0)
  bind fun _ => pure

instance skipStatement : Blames skipStatement :=
  have : Blames (modify fun c => { c with rest := c.rest.dropWhile (·.kind != .punct .semicolon) }
      : Parser PUnit) :=
    ⟨fun c => c.ahead_suffix (List.dropWhile_suffix _)⟩
  bind fun _ => discard

/-! ## Names -/

instance identifier : Blames identifier :=
  bind fun _ => by split <;> infer_instance

instance propertyName : Blames propertyName :=
  bind fun _ => by split <;> infer_instance

instance qualifiedTail : Blames qualifiedTail :=
  ⟨fun c => c.ahead_suffix (Agrees.dottedTail_suffix _)⟩

instance isModifier : Blames isModifier :=
  of_looks Agrees.looks_isModifier

/-! ## Pieces that hold types -/

instance skipVariance {n : Nat} : Blames (skipVariance n) := by
  induction n with
  | zero => exact fail
  | succ n ih => exact bind fun _ => by split <;> infer_instance

instance skipParamModifiers {n : Nat} : Blames (skipParamModifiers n) := by
  induction n with
  | zero => exact fail
  | succ n ih =>
    refine bind fun _ => ?_
    split
    iterate 4 exact bind fun _ => by split <;> infer_instance
    exact pure

section

variable {ty : Parser Ty} [Blames ty]

instance typeParam : Blames (typeParam ty) :=
  bind fun _ => inferInstance

instance typeParamsFor {n : Nat} : Blames (typeParamsFor ty n) := by
  induction n with
  | zero => exact fail
  | succ n ih =>
    rw [Parser.typeParamsFor]
    infer_instance

instance typeParams : Blames (typeParams ty) :=
  bind fun _ => inferInstance

instance typeArgs : Blames (typeArgs ty) :=
  bind fun _ => inferInstance

instance optionalTypeArgs : Blames (optionalTypeArgs ty) :=
  bind fun _ => inferInstance

instance paramEntry : Blames (paramEntry ty) := by
  refine bind fun _ => bind fun _ => ite inferInstance ?_
  iterate 5 refine bind fun _ => ?_
  exact ite (bind fun _ => inferInstance) (bind fun _ => inferInstance)

instance params : Blames (params ty) :=
  bind fun _ => inferInstance

instance signature : Blames (signature ty) :=
  bind fun _ => inferInstance

instance predicateParam : Blames predicateParam :=
  bind fun _ => inferInstance

instance returnType : Blames (returnType ty) :=
  bind fun _ => inferInstance

instance annotatedReturn : Blames (Parser.annotatedReturn ty) :=
  after

/-! ## Members -/

instance atIndexSignature : Blames atIndexSignature :=
  of_looks Agrees.looks_atIndexSignature

instance continuesAsMethod {kind : MethodKind} : Blames (continuesAsMethod kind) :=
  of_looks (Agrees.looks_continuesAsMethod kind)

instance skipMemberEnd : Blames skipMemberEnd :=
  bind fun _ => inferInstance

instance indexSignature {docs : Docs} {readonly : Bool} :
    Blames (indexSignature ty docs readonly) :=
  bind fun _ => inferInstance

instance accessorKind : Blames accessorKind :=
  bind fun _ => bind fun _ => inferInstance

instance callable {docs : Docs} : Blames (callable ty docs) :=
  bind fun _ => inferInstance

instance namedMember {docs : Docs} {readonly : Bool} : Blames (namedMember ty docs readonly) :=
  bind fun _ => bind fun _ => by split <;> infer_instance

instance memberAfter {docs : Docs} {readonly : Bool} : Blames (memberAfter ty docs readonly) :=
  bind fun _ => inferInstance

instance member : Blames (member ty) :=
  bind fun _ => bind fun _ => bind fun _ => ite (bind fun _ => memberAfter) memberAfter

instance members : Blames (members ty) :=
  bind fun _ => inferInstance

/-! ## Primary types -/

instance importedType {isTypeof : Bool} : Blames (importedType ty isTypeof) := by
  refine bind fun _ => bind fun _ => bind fun _ => ?_
  split
  · refine bind fun _ => bind fun _ => bind fun _ => ?_
    exact ite (bind fun _ => inferInstance) inferInstance
  · exact fail

instance typeOfType : Blames (typeOfType ty) :=
  bind fun _ => inferInstance

instance functionType : Blames (functionType ty) :=
  bind fun _ => inferInstance

instance arrowParams : Blames (arrowParams ty) :=
  bind fun _ => by split <;> infer_instance

/-- The second try begins where the first one did, and blames a token from there on. -/
instance bracketType : Blames (bracketType ty) := by
  have hparen : Blames (do
      Parser.expectMark .lparen
      let inner ← ty
      Parser.expectMark .rparen
      return Ty.paren inner) := inferInstance
  have hfunction (thisType : Option Ty) (params : List (Param Ty)) : Blames (do
      let returns ← Parser.returnType ty
      return Ty.function ⟨[], thisType, params⟩ returns) := inferInstance
  have htry : Blames (Parser.arrowParams ty) := arrowParams
  refine ⟨fun c => (htry.staysIn c).bind fun found c' hc' => ?_⟩
  cases found with
  | none => exact hparen.staysIn c
  | some found => exact ((hfunction found.1 found.2).staysIn c').mono hc'

instance atMappedType : Blames atMappedType :=
  of_looks Agrees.looks_atMappedType

instance mappedModifier {word : Kind} : Blames (mappedModifier word) :=
  bind fun _ => inferInstance

instance mappedType : Blames (mappedType ty) := by
  iterate 6 refine bind fun _ => ?_
  infer_instance

instance braceType : Blames (braceType ty) :=
  bind fun _ => inferInstance

instance atElementName : Blames atElementName :=
  of_looks Agrees.looks_atElementName

instance tupleElement : Blames (tupleElement ty) :=
  bind fun _ => inferInstance

instance tupleType : Blames (tupleType ty) :=
  bind fun _ => inferInstance

instance referenceType : Blames (referenceType ty) :=
  bind fun _ => inferInstance

instance negativeNumber : Blames negativeNumber :=
  bind fun _ => by split <;> infer_instance

instance keywordType {word : Keyword} : Blames (keywordType ty word) := by
  unfold Parser.keywordType
  split
  iterate 6 infer_instance
  split <;> infer_instance

instance primaryType : Blames (primaryType ty) :=
  bind fun _ => by split <;> infer_instance

/-! ## Levels of binding -/

instance suffixes {head : Ty} {n : Nat} : Blames (suffixes ty head n) := by
  induction n generalizing head with
  | zero => exact fail
  | succ n ih =>
    rw [Parser.suffixes]
    infer_instance

instance suffixedType : Blames (suffixedType ty) :=
  bind fun _ => inferInstance

instance operatorTypeFor {n : Nat} : Blames (operatorTypeFor ty n) := by
  induction n with
  | zero => exact fail
  | succ n ih => exact bind fun _ => by split <;> infer_instance

instance operatorType : Blames (operatorType ty) :=
  bind fun _ => inferInstance

instance intersectionType : Blames (intersectionType ty) :=
  bind fun _ => inferInstance

instance unionType : Blames (unionType ty) :=
  bind fun _ => inferInstance

instance typeWith : Blames (typeWith ty) :=
  bind fun _ => inferInstance

end

instance typeAt {n : Nat} : Blames (typeAt n) := by
  induction n with
  | zero => exact fail
  | succ n ih => exact typeWith

instance type : Blames type :=
  bind fun _ => inferInstance

/-! ## Classes -/

instance memberModifiersFor {m : MemberModifiers} {n : Nat} : Blames (memberModifiersFor m n) := by
  induction n generalizing m with
  | zero => exact fail
  | succ n ih => exact bind fun _ => by split <;> infer_instance

instance skipSemicolon : Blames skipSemicolon := discard

instance namedClassMember {docs : Docs} {m : MemberModifiers} : Blames (namedClassMember docs m) :=
  bind fun _ => bind fun _ => by split <;> infer_instance

instance classMember : Blames classMember := by
  iterate 5 refine bind fun _ => ?_
  exact ite (bind fun _ => bind fun _ => inferInstance) inferInstance

instance typesAfter {word : Keyword} : Blames (typesAfter word) :=
  bind fun _ => inferInstance

section

variable {docs : Docs} {modifiers : Modifiers}

instance classDecl {isAbstract : Bool} : Blames (classDecl docs modifiers isAbstract) :=
  bind fun _ => inferInstance

/-! ## Other declarations -/

instance functionDecl : Blames (functionDecl docs modifiers) :=
  bind fun _ => inferInstance

instance interfaceDecl : Blames (interfaceDecl docs modifiers) :=
  bind fun _ => inferInstance

instance aliasDecl : Blames (aliasDecl docs modifiers) :=
  bind fun _ => inferInstance

instance optionalInitializer : Blames optionalInitializer := after

instance variableDecl {kind : VariableKind} : Blames (variableDecl modifiers kind) :=
  bind fun _ => inferInstance

instance variableDecls {kind : VariableKind} : Blames (variableDecls docs modifiers kind) :=
  bind fun _ => inferInstance

instance enumMember : Blames enumMember :=
  bind fun _ => inferInstance

instance enumDecl {isConst : Bool} : Blames (enumDecl docs modifiers isConst) :=
  bind fun _ => inferInstance

instance exportedName : Blames exportedName :=
  bind fun _ => inferInstance

instance exportedNames : Blames exportedNames :=
  bind fun _ => inferInstance

/-! ## Statements -/

section

variable {items : Parser (List Item)} [Blames items]

instance body : Blames (body items) :=
  bind fun _ => inferInstance

instance namespaceBlock : Blames (namespaceBlock items docs modifiers) :=
  bind fun _ => inferInstance

instance ambientBlock {name : String} : Blames (ambientBlock items docs modifiers name) :=
  bind fun _ => inferInstance

instance modifiersFor {n : Nat} : Blames (modifiersFor modifiers n) := by
  induction n generalizing modifiers with
  | zero => exact fail
  | succ n ih => exact bind fun _ => by split <;> infer_instance

instance plainExport : Blames plainExport :=
  bind fun _ => inferInstance

instance declaration : Blames (declaration items docs modifiers) := by
  refine bind fun _ => ?_
  split
  iterate 10 infer_instance
  · exact bind fun _ => bind fun _ => by split <;> infer_instance
  all_goals infer_instance

instance itemsWith : Blames (itemsWith items) := by
  refine bind fun docs => bind fun _ => bind fun modifiers => ?_
  have hrest (found : Option (List Item)) : Blames (match found with
      | some found => Pure.pure found
      | none => Parser.declaration items docs modifiers) := by
    split <;> infer_instance
  exact ite (bind hrest) (bind hrest)

end

instance itemsAt {n : Nat} : Blames (itemsAt n) := by
  induction n with
  | zero => exact fail
  | succ n ih => exact itemsWith

instance fileItems : Blames fileItems :=
  bind fun kind => by cases kind <;> infer_instance

instance file : Blames file := many

end

end Blames

end Parser

end DeclLayer
