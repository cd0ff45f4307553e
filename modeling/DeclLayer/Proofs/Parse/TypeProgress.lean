import DeclLayer.Proofs.Parse.Members
import DeclLayer.Proofs.Parse.Progress

/-!
# Types are read forward

The pieces of the grammar of types, each with the parser for the types in it. If two parsers for
nested types agree where fewer than `n` tokens are ahead, then a piece made with the one agrees with
the same piece made with the other. If the piece passes a token in front of the first nested type,
one token more may be ahead, and that is so for a whole type (`Agrees.typeWith`).

Hence the bound on the nesting of types does not matter if it is more than the number of tokens
ahead (`Agrees.typeAt`), and types are read as if there was no bound (`Parser.type_eq`).
-/

namespace DeclLayer.Parser.Agrees

variable {l n N m t t' : Nat} {ty ty' : Parser Ty} (h : Agrees 0 n 1 ty ty')

/-! ## Pieces that hold types -/

/-- Skipping the variance words in front of a type parameter is the same for all bounds on its turns
that are more than the number of tokens ahead. -/
theorem skipVariance (ht : N ≤ t) (ht' : N ≤ t') :
    Agrees l N 0 (skipVariance t) (Parser.skipVariance t') := by
  induction N generalizing l t t' with
  | zero => exact .nowhere rfl
  | succ N ih =>
    refine .of_turns ht ht' fun i i' _ _ hi hi' => .peek fun kind l' _ hl => ?_
    have hword (hl : 1 ≤ l') : Agrees l' (N + 1) 0 (do
        if (← Parser.peekAt 1).isIdentLike then
          Parser.skip
          Parser.skipVariance i) (do
        if (← Parser.peekAt 1).isIdentLike then
          Parser.skip
          Parser.skipVariance i') :=
      .look (looks_peekAt 1) fun _ =>
        .ite (weaken (.step (.skip hl) fun _ => ih (by omega) (by omega))) .pure
    revert hl
    split
    · exact fun hl => hword (hl (by simp))
    · exact fun hl => hword (hl (by simp))
    · exact fun hl => hword (hl (by simp))
    · exact fun _ => .pure

/-- Skipping the modifiers in front of a parameter is the same for all bounds on its turns that are
more than the number of tokens ahead. -/
theorem skipParamModifiers (ht : N ≤ t) (ht' : N ≤ t') :
    Agrees l N 0 (skipParamModifiers t) (Parser.skipParamModifiers t') := by
  induction N generalizing l t t' with
  | zero => exact .nowhere rfl
  | succ N ih =>
    refine .of_turns ht ht' fun i i' _ _ hi hi' => .peek fun kind l' _ hl => ?_
    revert hl
    split
    iterate 4
      · intro hl
        refine .look (looks_peekAt 1) fun next => ?_
        split
        iterate 4 · exact .pure
        · exact weaken (.step (.skip (hl (by simp))) fun _ => ih (by omega) (by omega))
    · exact fun _ => .pure

section

include h

/-- A type parameter starts with its name, so one token more may be ahead of it than of the types in
it. -/
theorem typeParam : Agrees l (n + 1) 1 (typeParam ty) (Parser.typeParam ty') :=
  .loop (fun t _ => .skipVariance (Nat.le_refl t) (Nat.le_refl t)) fun _ =>
    .step .identifier fun _ => .bind (.after (by simp) h) fun _ =>
    .bind (.after (by simp) h) fun _ => .pure

/-- The type parameters after `<` are the same for all bounds on their number that are more than the
number of tokens ahead: each passes a token. -/
theorem typeParamsFor (hN : N ≤ n + 1) (ht : N ≤ t) (ht' : N ≤ t') :
    Agrees l N 1 (typeParamsFor ty t) (Parser.typeParamsFor ty' t') := by
  induction N generalizing l t t' with
  | zero => exact .nowhere rfl
  | succ N ih =>
    refine .of_turns ht ht' fun i i' _ _ hi hi' => ?_
    refine .step ((typeParam h).mono (Nat.le_refl l) hN) fun _ => ?_
    refine less (.accept_if (by simp) ?_ .pure)
    refine .look (looks_check _) fun _ => .ite .pure ?_
    exact .bind (ih (by omega) (by omega) (by omega)) fun _ => .pure

/-- A list of type parameters passes `<` before its first type, or nothing if it is not there. -/
theorem typeParams : Agrees l (n + 1) 0 (typeParams ty) (Parser.typeParams ty') :=
  .accept_if (by simp) (.loop (fun t ht => typeParamsFor h (Nat.le_succ_of_le ht) (Nat.le_refl t)
    (Nat.le_refl t)) fun _ => .bind (.expectMark _) fun _ => .pure) .pure

/-- A list of type arguments passes `<` before its first type. -/
theorem typeArgs : Agrees l (n + 1) 1 (typeArgs ty) (Parser.typeArgs ty') :=
  .step (.expectMark _) fun _ => .bind (.separated h) fun _ =>
    .bind (.expectMark _) fun _ => .pure

/-- Type arguments that may be missing pass `<` before their first type, or nothing. -/
theorem optionalTypeArgs : Agrees l (n + 1) 0 (optionalTypeArgs ty) (Parser.optionalTypeArgs ty') :=
  .look (looks_check _) fun _ => .ite (typeArgs h).weaken .pure

/-- An entry of a parameter list passes a token: its name, `this` or a pattern. -/
theorem paramEntry : Agrees l n 1 (paramEntry ty) (Parser.paramEntry ty') := by
  have hend {name : String} {rest : Bool} : Agrees 0 n 0 (do
        let optional ← Parser.acceptMark .question
        let type ← Parser.after (.punct .colon) ty
        return ParamEntry.param ⟨name, type, optional, rest⟩) (do
        let optional ← Parser.acceptMark .question
        let type ← Parser.after (.punct .colon) ty'
        return ParamEntry.param ⟨name, type, optional, rest⟩) :=
    .bind (.acceptMark _) fun _ => .bind (.after (by simp) h) fun _ => .pure
  refine .look (looks_check _) fun _ => .look (looks_peekAt 1) fun _ => .ite ?_ ?_
  · exact .bind .skip_maybe fun _ => .bind .skip_maybe fun _ => .pass h fun _ => .pure
  refine .loop (fun t _ => .skipParamModifiers (Nat.le_refl t) (Nat.le_refl t)) fun _ => ?_
  refine .bind (.acceptMark _) fun _ => .checked (by simp) fun brace i _ hi =>
    .checked (by simp) fun bracket j hij hj => .choice (fun hopen => ?_) fun _ => ?_
  · have hahead : 1 ≤ j :=
      (Bool.or_eq_true_iff.1 hopen).elim (fun h => Nat.le_trans (hi h) hij) hj
    exact .pass ((balanced (Nat.le_refl 1)).mono hahead (Nat.le_refl n)) fun _ => hend
  · exact .pass .identifier fun _ => hend

/-- A parameter list passes `(` before its first type. -/
theorem params : Agrees l (n + 1) 1 (params ty) (Parser.params ty') :=
  .step (.expectMark _) fun _ => .bind (.list (paramEntry h).weaken) fun _ =>
    .bind (.expectMark _) fun _ => .pure

/-- A signature passes a token before its first type: `<` or `(`. -/
theorem signature : Agrees l (n + 1) 1 (signature ty) (Parser.signature ty') :=
  .bind (typeParams h) fun _ => .pass (params h) fun _ => .pure

omit h in
/-- The parameter that a type predicate is about is one token. -/
theorem predicateParam : Agrees l n 1 predicateParam Parser.predicateParam :=
  .bind_accept (by simp) .pure .identifier

/-- A return type passes a token: the predicate's parameter or the type itself. -/
theorem returnType : Agrees l n 1 (returnType ty) (Parser.returnType ty') := by
  refine .peek fun _ _ _ _ => .look (looks_peekAt 1) fun _ => .ite ?_ (.ite ?_ h.anywhere)
  · exact .bind .skip_maybe fun _ => .pass .predicateParam fun _ =>
      .bind (.after (by simp) h) fun _ => .pure
  · exact .pass .predicateParam fun _ => .bind (.expectKeyword _) fun _ => .bind h fun _ => .pure

/-- A return type that may be missing passes nothing if no colon is there. -/
theorem annotatedReturn :
    Agrees l n 0 (Parser.annotatedReturn ty) (Parser.annotatedReturn ty') :=
  .after (by simp) (returnType h)

end

/-! ## Members -/

/-- The end of a member may be no token at all. -/
theorem skipMemberEnd : Agrees l n 0 skipMemberEnd Parser.skipMemberEnd :=
  .bind (.discard_acceptMark _) fun _ => .discard_acceptMark _

/-- The word `get` or `set` in front of an accessor may be missing. -/
theorem accessorKind : Agrees l n 0 accessorKind Parser.accessorKind :=
  .peek fun _ _ _ _ => .look (looks_peekAt 1) fun _ => .ite (.bind .skip_maybe fun _ => .pure) .pure

/-- Whether a word in front of a member is itself the name of a method is decided without passing a
token. -/
theorem looks_continuesAsMethod (kind : MethodKind) : Looks (continuesAsMethod kind) :=
  looks_bind (looks_check _) fun _ => looks_bind (looks_check _) fun _ => looks_pure _

/-- Whether a word is a modifier of the member behind it is decided without passing a token. -/
theorem looks_isModifier : Looks isModifier := by
  refine looks_bind (looks_peekAt 1) fun kind => ?_
  split
  · exact looks_pure _
  · exact looks_pure _

/-- Whether an index signature is ahead is decided without passing a token. -/
theorem looks_atIndexSignature : Looks atIndexSignature :=
  looks_bind (looks_check _) fun _ => looks_bind (looks_peekAt 1) fun _ =>
    looks_bind (looks_peekAt 2) fun _ => looks_pure _

section

include h

variable {docs : Docs} {readonly : Bool}

/-- An index signature passes `[` before its first type. -/
theorem indexSignature : Agrees l (n + 1) 1 (indexSignature ty docs readonly)
    (Parser.indexSignature ty' docs readonly) :=
  .step (.expectMark _) fun _ => .bind .identifier fun _ => .bind (.expectMark _) fun _ =>
    .bind h fun _ => .bind (.expectMark _) fun _ => .bind (.expectMark _) fun _ =>
    .bind h fun _ => .bind .skipMemberEnd fun _ => .pure

/-- A call or construct signature passes a token before its first type: `<` or `(`. -/
theorem callable : Agrees l (n + 1) 1 (callable ty docs) (Parser.callable ty' docs) :=
  .step (signature h) fun _ => .bind (annotatedReturn h) fun _ =>
    .bind .skipMemberEnd fun _ => .pure

/-- A member with a name passes a token before its first type, unless none is ahead: a token that
begins no name is passed over. -/
theorem namedMember (hm : m ≤ 1) :
    Agrees m (n + 1) m (namedMember ty docs readonly) (Parser.namedMember ty' docs readonly) := by
  refine .carry .accessorKind fun _ i hi => .bind_attempt .propertyName (fun _ => ?_) ?_
    (Nat.le_trans hi hm)
  · refine .bind (.acceptMark _) fun _ => .look (looks_continuesAsMethod _) fun _ => .ite ?_ ?_
    · exact .bind (callable h).less fun _ => .pure
    · exact .bind (.after (by simp) h) fun _ => .bind .skipMemberEnd fun _ => .pure
  · exact .pass (.skip_any (Nat.le_trans hi hm)) fun _ => .pure

/-- What stands behind the modifiers of a member passes a token before its first type, unless none
is ahead. -/
theorem memberAfter (hm : m ≤ 1) :
    Agrees m (n + 1) m (memberAfter ty docs readonly) (Parser.memberAfter ty' docs readonly) := by
  refine .look looks_atIndexSignature fun _ => .ite ?_ ?_
  · exact .pass ((indexSignature h).atLeast hm) fun _ => .pure
  refine .look (looks_check _) fun _ => .look (looks_check _) fun _ => .ite ?_ ?_
  · exact .pass ((callable h).atLeast hm) fun _ => .pure
  refine .look (looks_check _) fun _ => .look (looks_peekAt 1) fun _ => .look (looks_peekAt 1)
    fun _ => .ite ?_ (namedMember h hm)
  exact .bind .skip_maybe fun _ => .pass ((callable h).atLeast hm) fun _ => .pure

/-- A member passes a token before its first type, unless none is ahead. -/
theorem member (hm : m ≤ 1) : Agrees m (n + 1) m (member ty) (Parser.member ty') := by
  refine .look looks_docs fun docs => .look (looks_check _) fun _ => .look looks_isModifier
    fun _ => .ite ?_ (memberAfter h hm)
  exact .pass (.skip_any hm) fun _ => memberAfter h (Nat.zero_le 1)

/-- A list of members passes `{` before its first type. -/
theorem members : Agrees l (n + 1) 1 (members ty) (Parser.members ty') :=
  .step (.expectMark _) fun _ =>
    .bind (many (testsEnd_atEnd _) (member h (Nat.le_refl 1))).less fun _ =>
    .bind (.expectMark _) fun _ => .pure

end

/-! ## Primary types -/

section

include h

/-- An import type passes `import` before its first type. -/
theorem importedType {isTypeof : Bool} :
    Agrees l (n + 1) 1 (importedType ty isTypeof) (Parser.importedType ty' isTypeof) := by
  refine .step (.expectKeyword _) fun _ => .bind (.expectMark _) fun _ => .peek fun kind _ _ _ => ?_
  have hend {module : String} {qualifier : Option String} : Agrees 0 n 0 (do
      let args ← Parser.optionalTypeArgs ty
      return Ty.imported module qualifier args isTypeof) (do
      let args ← Parser.optionalTypeArgs ty'
      return Ty.imported module qualifier args isTypeof) :=
    .bind (optionalTypeArgs h).less fun _ => .pure
  split
  · refine .bind .skip_maybe fun _ => .bind (.expectMark _) fun _ => ?_
    exact .look (looks_check _) fun _ => .ite (.bind .qualifiedTail fun _ => hend) hend
  · exact .fail (by simp)

/-- A `typeof` type passes `typeof` before its first type. -/
theorem typeOfType : Agrees l (n + 1) 1 (typeOfType ty) (Parser.typeOfType ty') :=
  .look (looks_check _) fun _ => .ite (importedType h)
    (.pass .predicateParam fun _ => .bind .qualifiedTail fun _ => .pure)

/-- A function type passes a token before its first type: `<` or `(`. -/
theorem functionType : Agrees l (n + 1) 1 (functionType ty) (Parser.functionType ty') :=
  .step (signature h) fun _ => .bind (.expectMark _) fun _ => .bind (returnType h) fun _ => .pure

/-- Parameters with an arrow after them are looked for without failing. Tokens are passed if they
are found. -/
theorem arrowParams_cases {c : Cursor} (hc : c.last.kind = .eof) (hn : c.rest.length < n + 1) :
    arrowParams ty c = Parser.arrowParams ty' c ∧
      ∃ found c', arrowParams ty c = .ok (found, c') ∧ c.Passes 0 c' ∧
        (found.isSome = true → c.Passes 1 c') := by
  have hparams : Agrees 0 (n + 1) 1 (Parser.params ty) (Parser.params ty') := params h
  obtain ⟨heq, hreaches⟩ := hparams c hc (Nat.zero_le _) hn
  cases hpc : Parser.params ty c with
  | error e =>
    have hnone : Parser.arrowParams ty c = .ok (none, c) := attempt_error hpc
    have hnone' : Parser.arrowParams ty' c = .ok (none, c) := attempt_error (heq ▸ hpc)
    exact ⟨hnone.trans hnone'.symm, none, c, hnone, .refl c, fun h => by cases h⟩
  | ok r =>
    obtain ⟨found, c'⟩ := r
    rw [hpc] at hreaches
    have hpasses : c.Passes 1 c' := hreaches
    have hfound (ty : Parser Ty) (hpc : Parser.params ty c = .ok (found, c')) :
        Parser.arrowParams ty c = .ok (if c'.kindAt 0 == .punct .arrow then (some found, c'.next)
          else (none, c')) := by
      refine (attempt_ok hpc).trans ?_
      show (Parser.accept (.punct .arrow) c' >>=
        fun x => (if x.1 = true then _ else _ : Parser _) x.2) = _
      rw [accept_eq]
      cases c'.kindAt 0 == .punct .arrow <;> rfl
    rw [hfound ty hpc, hfound ty' (heq ▸ hpc)]
    cases c'.kindAt 0 == .punct .arrow with
    | true =>
      have hnext := hpasses.trans (Cursor.passes_next (Nat.zero_le _) (Nat.zero_le 1))
      exact ⟨rfl, some found, c'.next, rfl, hnext.mono (Nat.zero_le 1), fun _ => hnext⟩
    | false =>
      exact ⟨rfl, none, c', rfl, hpasses.mono (Nat.zero_le 1), fun h => by cases h⟩

/-- The parameters that may stand in front of an arrow pass `(` before their first type, or nothing
if the attempt to read them fails. -/
theorem arrowParams : Agrees l (n + 1) 0 (arrowParams ty) (Parser.arrowParams ty') := by
  intro c hc _ hn
  obtain ⟨heq, found, c', hfound, hpasses, -⟩ := arrowParams_cases h hc hn
  exact ⟨heq, hfound ▸ hpasses⟩

/-- The second try begins where the first one did, and passes the opening bracket before the type in
it is read. -/
theorem bracketType : Agrees l (n + 1) 1 (bracketType ty) (Parser.bracketType ty') := by
  have hparen : Agrees l (n + 1) 1 (do
      Parser.expectMark .lparen
      let inner ← ty
      Parser.expectMark .rparen
      return Ty.paren inner) (do
      Parser.expectMark .lparen
      let inner ← ty'
      Parser.expectMark .rparen
      return Ty.paren inner) :=
    .step (.expectMark _) fun _ => .bind h fun _ => .bind (.expectMark _) fun _ => .pure
  intro c hc hl hn
  obtain ⟨heq, found, c', hfound, hpasses, hsome⟩ := arrowParams_cases h hc hn
  show (Parser.arrowParams ty c >>= fun x => _) = (Parser.arrowParams ty' c >>= fun x => _) ∧
    Reaches c 1 (Parser.arrowParams ty c >>= fun x => _)
  rw [← heq, hfound]
  cases found with
  | none => exact hparen c hc hl hn
  | some found =>
    have hpasses := hsome rfl
    have hlength := hpasses.length_le
    have hreturns : Agrees 0 n 0 (do
        let returns ← Parser.returnType ty
        return Ty.function ⟨[], found.1, found.2⟩ returns) (do
        let returns ← Parser.returnType ty'
        return Ty.function ⟨[], found.1, found.2⟩ returns) :=
      .bind (returnType h) fun _ => .pure
    obtain ⟨heq', hreaches⟩ := hreturns c' (hpasses.last_eq ▸ hc) (Nat.zero_le _) (by omega)
    exact ⟨heq', hreaches.from_later hpasses (Nat.le_refl 1)⟩

omit h in
/-- Whether a mapped type is ahead is decided without passing a token. -/
theorem looks_atMappedType : Looks atMappedType := by
  have hend (offset : Nat) : Looks (do
      return (← peekAt (1 + offset)) == .punct .lbracket && (← peekAt (2 + offset)).isIdentLike &&
        (← peekAt (3 + offset)) == .keyword .inKw) :=
    looks_bind (looks_peekAt _) fun _ => looks_bind (looks_peekAt _) fun _ =>
      looks_bind (looks_peekAt _) fun _ => looks_pure _
  refine looks_bind (looks_peekAt 1) fun kind => ?_
  dsimp only
  split
  · exact hend 1
  · exact looks_bind (looks_peekAt 2) fun _ => looks_ite (hend 2) (hend 0)
  · exact looks_bind (looks_peekAt 2) fun _ => looks_ite (hend 2) (hend 0)
  · exact hend 0

omit h in
/-- The modifier of a mapped type in front of a word may be missing. -/
theorem mappedModifier {word : Kind} (hword : word ≠ .eof) :
    Agrees l n 0 (mappedModifier word) (Parser.mappedModifier word) := by
  have hsign {sign : MappedModifier} : Agrees 0 n 0 (do Parser.expect word; return some sign)
      (do Parser.expect word; return some sign) :=
    .bind (.expect hword) fun _ => .pure
  exact less (.accept_if hword .pure
    (.accept_if (by simp) hsign (.accept_if (by simp) hsign .pure)))

/-- A mapped type passes `{` before its first type. -/
theorem mappedType : Agrees l (n + 1) 1 (mappedType ty) (Parser.mappedType ty') :=
  .step (.expectMark _) fun _ => .bind (.mappedModifier (by simp)) fun _ =>
    .bind (.expectMark _) fun _ => .bind .identifier fun _ => .bind (.expectKeyword _) fun _ =>
    .bind h fun _ => .bind (.after (by simp) h) fun _ => .bind (.expectMark _) fun _ =>
    .bind (.mappedModifier (by simp)) fun _ => .bind (.expectMark _) fun _ => .bind h fun _ =>
    .bind (.discard_acceptMark _) fun _ => .bind (.expectMark _) fun _ => .pure

/-- A type in braces, mapped or with members, passes `{` before its first type. -/
theorem braceType : Agrees l (n + 1) 1 (braceType ty) (Parser.braceType ty') :=
  .look looks_atMappedType fun _ => .ite (mappedType h) (.pass (members h) fun _ => .pure)

omit h in
/-- Whether a tuple element has a name is decided without passing a token. -/
theorem looks_atElementName : Looks atElementName :=
  looks_bind (looks_peekAt 0) fun _ => looks_bind (looks_peekAt 1) fun _ =>
    looks_bind (looks_peekAt 1) fun _ => looks_bind (looks_peekAt 2) fun _ => looks_pure _

/-- An element of a tuple passes a token: its name, its dots or its type's first token. -/
theorem tupleElement : Agrees l n 1 (tupleElement ty) (Parser.tupleElement ty') := by
  refine .bind (.acceptMark _) fun _ => .look looks_atElementName fun _ => .ite ?_ ?_
  · exact .pass .identifier fun _ => .bind (.acceptMark _) fun _ => .bind (.expectMark _) fun _ =>
      .bind h fun _ => .pure
  · exact .pass h fun _ => .bind (.acceptMark _) fun _ => .pure

/-- A tuple passes `[` before its first type. -/
theorem tupleType : Agrees l (n + 1) 1 (tupleType ty) (Parser.tupleType ty') :=
  .step (.expectMark _) fun _ => .bind (.list (tupleElement h).weaken) fun _ =>
    .bind (.expectMark _) fun _ => .pure

/-- A reference passes its name before its type arguments. -/
theorem referenceType : Agrees l (n + 1) 1 (referenceType ty) (Parser.referenceType ty') :=
  .step .identifier fun _ => .bind .qualifiedTail fun _ =>
    .bind (optionalTypeArgs h).less fun _ => .pure

omit h in
/-- The number behind a minus sign may be missing. -/
theorem negativeNumber : Agrees l n 0 negativeNumber Parser.negativeNumber := by
  refine .peek fun kind _ _ _ => ?_
  split
  · exact .bind .skip_maybe fun _ => .pure
  · exact .fail (by simp)

/-- A type that starts with a keyword passes the keyword before the types in it. -/
theorem keywordType (word : Keyword) (hm : m ≤ 1) :
    Agrees m (n + 1) m (keywordType ty word) (Parser.keywordType ty' word) := by
  have hskip {ty : Ty} :
      Agrees m (n + 1) m (do Parser.skip; return ty) (do Parser.skip; return ty) :=
    .pass (.skip_any hm) fun _ => .pure
  unfold Parser.keywordType
  split
  · exact hskip
  · exact hskip
  · exact .pass (.skip_any hm) fun _ => (typeOfType h).weaken
  · exact (importedType h).atLeast hm
  · exact hskip
  · exact .pass (.skip_any hm) fun _ => .bind (functionType h) fun _ => .pure
  · split
    · exact hskip
    · refine .look (looks_peekAt 1) fun _ =>
        .ite ?_ (.ite ((referenceType h).atLeast hm) (.fail (by simp)))
      exact .pass (.skip_any hm) fun _ => .bind .skip_maybe fun _ =>
        .bind (functionType h) fun _ => .pure

/-- A primary type passes a token before the types in it. -/
theorem primaryType : Agrees l (n + 1) 1 (primaryType ty) (Parser.primaryType ty') := by
  refine .peek fun kind i _ hi => ?_
  have hskip {ty : Ty} (h : kind ≠ .eof) :
      Agrees i (n + 1) 1 (do Parser.skip; return ty) (do Parser.skip; return ty) :=
    .pass (.skip (hi h)) fun _ => .pure
  split
  · exact (keywordType h _ (Nat.le_refl 1)).mono (hi (by simp)) (Nat.le_refl _)
  · exact referenceType h
  · exact hskip (by simp)
  · exact hskip (by simp)
  · exact hskip (by simp)
  · exact .pass (.skip (hi (by simp))) fun _ => .negativeNumber
  · exact bracketType h
  · exact braceType h
  · exact tupleType h
  · exact .pass (functionType h) fun _ => .pure
  · exact .fail (by simp)

/-! ## Levels of binding -/

/-- The brackets behind a type are the same for all bounds on their number that are more than the
number of tokens ahead: each pair passes a token. -/
theorem suffixes {head : Ty} (hN : N ≤ n + 1) (ht : N ≤ t) (ht' : N ≤ t') :
    Agrees l N 0 (suffixes ty head t) (Parser.suffixes ty' head t') := by
  induction N generalizing l t t' head with
  | zero => exact .nowhere rfl
  | succ N ih =>
    refine .of_turns ht ht' fun i i' _ _ hi hi' => .accept_if (by simp) ?_ .pure
    have hrest {head : Ty} :
        Agrees 0 N 0 (Parser.suffixes ty head i) (Parser.suffixes ty' head i') :=
      ih (by omega) (by omega) (by omega)
    refine .bind_accept (by simp) (hrest.mono (Nat.le_refl 0) (Nat.sub_le N 1)) ?_
    exact .bind (h.mono (Nat.le_refl 0) (Nat.le_of_succ_le_succ hN)) fun _ =>
      .bind (.expectMark _) fun _ => hrest

/-- A primary type with its brackets passes a token before the types in it. -/
theorem suffixedType : Agrees l (n + 1) 1 (suffixedType ty) (Parser.suffixedType ty') :=
  .pass (primaryType h) fun _ => .turns fun t ht => suffixes h ht (Nat.le_refl t) (Nat.le_refl t)

/-- A type behind its operators is the same for all bounds on their number that are more than the
number of tokens ahead: each operator passes a token. -/
theorem operatorTypeFor (hN : N ≤ n + 1) (ht : N ≤ t) (ht' : N ≤ t') :
    Agrees l N 1 (operatorTypeFor ty t) (Parser.operatorTypeFor ty' t') := by
  induction N generalizing l t t' with
  | zero => exact .nowhere rfl
  | succ N ih =>
    refine .of_turns ht ht' fun i i' _ _ hi hi' => .peek fun kind l' _ hl => ?_
    have hrest : Agrees 0 N 1 (Parser.operatorTypeFor ty i) (Parser.operatorTypeFor ty' i') :=
      ih (by omega) (by omega) (by omega)
    have hsuffixed : Agrees l' (N + 1) 1 (Parser.suffixedType ty) (Parser.suffixedType ty') :=
      (suffixedType h).mono (Nat.le_refl l') hN
    revert hl
    split
    · exact fun hl => .step (.skip (hl (by simp))) fun _ => .bind hrest fun _ => .pure
    · exact fun hl => .step (.skip (hl (by simp))) fun _ => .bind hrest fun _ => .pure
    · exact fun hl => .step (.skip (hl (by simp))) fun _ => .bind .identifier fun _ => .pure
    · refine fun hl => .look (looks_peekAt 1) fun _ => .ite ?_ hsuffixed
      exact .step (.skip (hl (by simp))) fun _ => .bind .skip_maybe fun _ => .pure
    · exact fun _ => hsuffixed

/-- A type with its operators passes a token before the types in it. -/
theorem operatorType : Agrees l (n + 1) 1 (operatorType ty) (Parser.operatorType ty') :=
  .turns fun t ht => operatorTypeFor h ht (Nat.le_refl t) (Nat.le_refl t)

/-- An intersection passes a token before the types nested in its members. -/
theorem intersectionType : Agrees l (n + 1) 1 (intersectionType ty) (Parser.intersectionType ty') :=
  .bind (.discard_acceptMark _) fun _ => .pass (.separated (operatorType h)) fun _ => .pure

/-- A union passes a token before the types nested in its members. -/
theorem unionType : Agrees l (n + 1) 1 (unionType ty) (Parser.unionType ty') :=
  .bind (.discard_acceptMark _) fun _ => .pass (.separated (intersectionType h)) fun _ => .pure

/-- A whole type passes a token before the types nested in it. This is the step of the induction on
the bound. -/
theorem typeWith : Agrees l (n + 1) 1 (typeWith ty) (Parser.typeWith ty') :=
  .pass (unionType h) fun _ => .accept_if (by simp)
    (.bind (unionType h).less fun _ => .bind (.expectMark _) fun _ => .bind h fun _ =>
      .bind (.expectMark _) fun _ => .bind h fun _ => .pure) .pure

end

/-! ## Types -/

/-- How many levels of nesting a type may have does not matter, if it is more than there are tokens
ahead. -/
theorem typeAt (ht : N ≤ t) (ht' : N ≤ t') : Agrees l N 1 (typeAt t) (Parser.typeAt t') := by
  induction N generalizing l t t' with
  | zero => exact .nowhere rfl
  | succ N ih => exact .of_turns ht ht' fun i i' _ _ hi hi' => .typeWith (ih (by omega) (by omega))

/-- A bound on the nesting that is more than the number of tokens ahead is as good as none. -/
theorem typeAt_type (ht : N ≤ t) : Agrees l N 1 (Parser.typeAt t) Parser.type := by
  intro c hc hl hn
  exact typeAt (Nat.le_trans hn ht) (Nat.le_refl _) c hc hl (Nat.lt_succ_self _)

/-- A type passes a token. -/
theorem type : Agrees l n 1 type Parser.type :=
  .turns fun t _ => .typeAt (Nat.le_refl t) (Nat.le_refl t)

end DeclLayer.Parser.Agrees

namespace DeclLayer.Parser

/-- A type is read by the grammar with the parser for types in it, without any bound. -/
theorem type_eq {c : Cursor} (hc : c.last.kind = .eof) : type c = typeWith type c := by
  have h : Agrees 0 (c.rest.length + 1) 1 (typeWith (typeAt c.rest.length)) (typeWith type) :=
    .typeWith (Agrees.typeAt_type (Nat.le_refl _))
  exact (h c hc (Nat.zero_le _) (Nat.lt_succ_self _)).1

end DeclLayer.Parser
