import DeclLayer.Proofs.Parse.Members

/-!
# Reading primary types

What `primaryType` reads, one lemma for each form of a type that no operator or suffix belongs to.
Each is read in front of a suffix, and in front of whatever ends a type; a function type takes in
all that could go on with its return type.
-/

namespace DeclLayer

open Token DeclLayer.Parser Literal

/-- A token that binds less tightly is another one. -/
theorem Token.ne_of_binding {kind other : Kind} {level : Nat} (h : binding kind < level)
    (hother : level ≤ binding other) : kind ≠ other := by
  rintro rfl
  omega

/-- In front of a token where an open type ends every type does. -/
theorem Ty.Before.endsType {t : Ty} {level : Nat} {next : Kind} (h : t.Before level next)
    (hopens : t.opens = true) : endsType next = true := by
  obtain ⟨hbinding, has⟩ := h.2 hopens
  exact Bool.and_eq_true_iff.2 ⟨beq_iff_eq.2 hbinding, bne_iff_ne.2 has⟩

namespace Parser.Reads

variable {ty : Parser Ty} {docs : Docs} {k : List Piece}

/-! ## References -/

/-- A dotted name after its first word. -/
theorem qualified {name w : String} {ws : List String} (hwords : nameWords name = w :: ws)
    {p : Parser String} {α : Type} {f : String → Parser α} {qs : List Piece} {a : α}
    (hp : Reads docs p [.token (wordKind w)] w (dottedRest ws ++ (qs ++ k)))
    (hdot : kindAt (qs ++ k) 0 ≠ .punct .dot)
    (hf : ∀ docs, Reads docs (f name) qs a k) :
    Reads docs (do
      let head ← p
      let tail ← Parser.qualifiedTail
      f (head ++ tail)) (dotted name ++ qs) a k := by
  obtain ⟨hpieces, hname⟩ := dotted_eq hwords
  rw [hpieces]
  refine bind_token (List.append_assoc .. ▸ hp) ?_
  exact bind (qualifiedTail hdot) (hname ▸ hf _)

/-- A reference is read back with its type arguments. -/
theorem referenceType {name w : String} {ws : List String} {args : List Ty}
    (hwords : nameWords name = w :: ws) (hw : (wordKind w).isIdentLike = true)
    (h : ∀ u ∈ args, u.Read ty ∧ 1 ≤ u.rank) (hk : binding (kindAt k 0) < 5) :
    Reads docs (Parser.referenceType ty) (Ty.named name args).pieces (.named name args) k := by
  rw [Ty.pieces]
  refine qualified (f := fun name => Parser.optionalTypeArgs ty >>= fun args =>
    Pure.pure (Ty.named name args)) hwords (identifier hw) ?_ fun docs => ?_
  · cases args with
    | nil => exact ne_of_binding hk (Nat.le_refl 5)
    | cons => rintro ⟨⟩
  · exact (optionalTypeArgs h (ne_of_binding hk (Nat.le_refl 5))).map

/-- A keyword that can begin a reference begins nothing else. -/
theorem primaryType_named {name : String} {args : List Ty}
    (hname : IsDottedName (isReferenceHead · = true) name)
    (h : ∀ u ∈ args, u.Read ty ∧ 1 ≤ u.rank) (hk : binding (kindAt k 0) < 5) :
    Reads docs (Parser.primaryType ty) (Ty.named name args).pieces (.named name args) k := by
  obtain ⟨w, ws, hwords⟩ := List.exists_cons_of_ne_nil (nameWords_ne_nil name)
  have hw : isReferenceHead w = true := hname.2 w (by rw [hwords]; rfl)
  have hreference (hident : (wordKind w).isIdentLike = true) :
      Reads docs (Parser.referenceType ty) (Ty.named name args).pieces (.named name args) k :=
    referenceType hwords hident h hk
  have hfirst : kindAt ((Ty.named name args).pieces ++ k) 0 = wordKind w := by
    rw [Ty.pieces, (dotted_eq hwords).1]
    rfl
  refine bind_nil peek ?_
  rw [hfirst]
  unfold isReferenceHead at hw
  split at hw
  · next heq =>
    rw [heq] at hreference ⊢
    exact hreference rfl
  · next kw heq =>
    simp only [Bool.and_eq_true, bne_iff_ne, Option.isNone_iff_eq_none] at hw
    obtain ⟨⟨⟨⟨hcontextual, hprimitive⟩, -⟩, -⟩, -⟩ := hw
    rw [heq] at hreference ⊢
    have hread := hreference hcontextual
    show Reads docs (keywordType ty kw) _ _ k
    -- The only such keyword that can begin another type needs a certain word after it.
    have hnew : kindAt ((Ty.named name args).pieces ++ k) 1 ≠ .keyword .new := by
      rw [Ty.pieces, (dotted_eq hwords).1]
      cases ws with
      | cons => rintro ⟨⟩
      | nil =>
        cases args with
        | cons => rintro ⟨⟩
        | nil => exact ne_of_binding hk (Nat.le_refl 5)
    unfold keywordType
    split
    all_goals first | cases hcontextual | rw [hprimitive]
    refine bind_nil (peekAt 1) ?_
    rw [beq_eq_false_iff_ne.2 hnew, Bool.and_false, if_neg Bool.false_ne_true, if_pos hcontextual]
    exact hread
  · cases hw

/-- A primitive type is read back. -/
theorem primaryType_primitive (p : Primitive) :
    Reads docs (Parser.primaryType ty) (Ty.primitive p).pieces (.primitive p) k := by
  cases p <;> exact bind_nil peek (skip.bind (pure (Ty.primitive _)))

/-! ## Literals -/

/-- A number is read back, with a minus sign or without. -/
theorem primaryType_number {text : String} (h : IsNumberType text) :
    Reads docs (Parser.primaryType ty) (Ty.number text).pieces (.number text) k := by
  rw [Ty.pieces]
  rcases h.pieces_eq with ⟨-, hpieces⟩ | ⟨digits, rfl, -, hpieces⟩
  · rw [hpieces]
    exact bind_nil peek (skip.bind (pure (Ty.number text)))
  · rw [hpieces]
    exact bind_nil peek (bind_token skip (bind_nil peek (skip.bind (pure (Ty.number _)))))

/-- A boolean literal is read back. -/
theorem primaryType_boolean (value : Bool) :
    Reads docs (Parser.primaryType ty) (Ty.boolean value).pieces (.boolean value) k := by
  cases value <;> exact bind_nil peek (skip.bind (pure (Ty.boolean _)))

/-! ## Values and other modules -/

/-- The type of a value is read back. -/
theorem primaryType_typeOf {name : String}
    (h : IsDottedName (fun w => isPredicateParam (wordKind w) = true) name)
    (hk : binding (kindAt k 0) < 5) :
    Reads docs (Parser.primaryType ty) (Ty.typeOf name).pieces (.typeOf name) k := by
  obtain ⟨w, ws, hwords⟩ := List.exists_cons_of_ne_nil (nameWords_ne_nil name)
  have hw : isPredicateParam (wordKind w) = true := h.2 w (by rw [hwords]; rfl)
  have himport : wordKind w ≠ .keyword .importKw := by
    intro heq
    rw [heq] at hw
    cases hw
  have hfirst : kindAt (dotted name ++ [] ++ k) 0 = wordKind w := by
    rw [(dotted_eq hwords).1]
    rfl
  have hread : Reads [] (Parser.typeOfType ty) (dotted name ++ []) (.typeOf name) k := by
    refine bind_nil (check_other (hfirst ▸ himport)) ?_
    exact qualified (f := fun name => Pure.pure (Ty.typeOf name)) hwords (predicateParam hw)
      (ne_of_binding hk (Nat.le_refl 5)) fun docs => pure (Ty.typeOf name)
  rw [List.append_nil] at hread
  exact bind_nil peek (bind_token skip hread)

/-- A dotted name is what its words leave after the first dot. -/
theorem drop_join_nameWords (q : String) :
    String.ofList ((String.join ((nameWords q).map ("." ++ ·))).toList.drop 1) = q := by
  obtain ⟨w, ws, hwords⟩ := List.exists_cons_of_ne_nil (nameWords_ne_nil q)
  have hq := (dotted_eq hwords).2
  rw [hwords, List.map_cons, String.join_cons, String.append_assoc, ← hq, String.toList_append]
  exact String.ofList_toList

/-- An import type is read back from the word `import` on. -/
theorem importedType {module : String} {qualifier : Option String} {args : List Ty}
    (isTypeof : Bool) (h : ∀ u ∈ args, u.Read ty ∧ 1 ≤ u.rank) (hk : binding (kindAt k 0) < 5) :
    Reads docs (Parser.importedType ty isTypeof)
      (Ty.imported module qualifier args false).pieces
      (.imported module qualifier args isTypeof) k := by
  have hdot : kindAt (angledBy (Ty.piecesList args) ++ k) 0 ≠ .punct .dot := by
    cases args with
    | nil => exact ne_of_binding hk (Nat.le_refl 5)
    | cons => nofun
  have hargs (docs : Docs) : Reads docs (Parser.optionalTypeArgs ty)
      (angledBy (Ty.piecesList args)) args k :=
    optionalTypeArgs h (ne_of_binding hk (Nat.le_refl 5))
  cases qualifier with
  | none =>
    rw [Ty.pieces]
    refine bind_token expect (bind_token expect (bind_nil peek ?_))
    refine bind_token skip (bind_token expect ?_)
    exact bind_nil (check_other hdot) (bind_nil (pure none) (hargs _).map)
  | some q =>
    obtain ⟨w, ws, hwords⟩ := List.exists_cons_of_ne_nil (nameWords_ne_nil q)
    rw [Ty.pieces]
    refine bind_token expect (bind_token expect (bind_nil peek ?_))
    refine bind_token skip (bind_token expect ?_)
    refine bind_nil (a := true) ?_ ?_
    · rw [hwords]
      exact check _
    · refine bind (qualifiedTail hdot) (bind_nil (pure _) ?_)
      rw [drop_join_nameWords q]
      exact (hargs _).map

/-- An import type is read back, with `typeof` or without. -/
theorem primaryType_imported {module : String} {qualifier : Option String} {args : List Ty}
    (isTypeof : Bool) (h : ∀ u ∈ args, u.Read ty ∧ 1 ≤ u.rank) (hk : binding (kindAt k 0) < 5) :
    Reads docs (Parser.primaryType ty) (Ty.imported module qualifier args isTypeof).pieces
      (.imported module qualifier args isTypeof) k := by
  have hread (docs : Docs) : Reads docs (Parser.importedType ty isTypeof)
      (Ty.imported module qualifier args false).pieces
      (.imported module qualifier args isTypeof) k :=
    importedType isTypeof h hk
  have hpieces : (Ty.imported module qualifier args isTypeof).pieces =
      piecesIf isTypeof [word .typeof] ++ (Ty.imported module qualifier args false).pieces := by
    cases qualifier <;> rw [Ty.pieces, Ty.pieces] <;> rfl
  have hfirst : kindAt ((Ty.imported module qualifier args false).pieces ++ k) 0 =
      .keyword .importKw := by
    cases qualifier <;> rw [Ty.pieces] <;> rfl
  rw [hpieces]
  cases isTypeof with
  | true =>
    refine bind_nil peek (bind_token skip (bind_nil (a := true) ?_ (hread [])))
    have hcheck := (check (.keyword .importKw) :
      Reads [] _ _ _ ((Ty.imported module qualifier args false).pieces ++ k))
    rwa [hfirst] at hcheck
  | false =>
    refine bind_nil peek ?_
    rw [piecesIf, if_neg Bool.false_ne_true, List.nil_append, hfirst]
    exact hread docs

/-! ## Brackets -/

/-- A type in round brackets. Parameters are tried first, and are not found. -/
theorem primaryType_paren {t : Ty} (h : t.Read ty) (hrank : 1 ≤ t.rank)
    (hk : binding (kindAt k 0) < 5) :
    Reads docs (Parser.primaryType ty) (Ty.paren t).pieces (.paren t) k := by
  have hparen : Reads docs (do
      expectMark .lparen
      let inner ← ty
      expectMark .rparen
      return Ty.paren inner) (Ty.paren t).pieces (.paren t) k :=
    bind_token expect (bind (h.ends hrank rfl) (bind_token expect (pure (Ty.paren t))))
  refine bind_nil peek ?_
  intro c hc
  have harrow : (kinds k).head? ≠ some (.punct .arrow) := by
    intro heq
    have hother : kindAt k 0 ≠ .punct .arrow := ne_of_binding hk (Nat.le_refl 5)
    refine hother ?_
    rw [kindAt, List.getD_eq_getElem?_getD, ← List.head?_eq_getElem?, heq]
    rfl
  have hahead : c.Ahead (.punct .lparen :: (kinds t.pieces ++ .punct .rparen :: kinds k)) := by
    have hkinds : kinds ((Ty.paren t).pieces ++ k) =
        .punct .lparen :: (kinds t.pieces ++ .punct .rparen :: kinds k) := by
      simp only [Ty.pieces, kinds_append, kinds_token, List.cons_append, List.append_assoc,
        List.nil_append]
    exact hkinds ▸ hc.ahead
  obtain ⟨c', hspeculation⟩ := arrowParams_leads ty (t.leads h.canonical hrank) harrow hahead
  obtain ⟨c₂, hresult, hspells⟩ := hparen c hc
  refine ⟨c₂, ?_, hspells⟩
  show (arrowParams ty c >>= fun x => _) = _
  rw [hspeculation]
  exact hresult

/-- A function type. Without type parameters it begins like a type in brackets. -/
theorem primaryType_function {s : Signature Ty} {returns : Ty} (hs : s.Fits)
    (h : ∀ u, .type u ∈ s.parts → u.Read ty) (hreturns : returns.FitsReturn)
    (hread : returns.Read ty) (hk : endsType (kindAt k 0) = true) :
    Reads docs (Parser.primaryType ty) (Ty.function s returns).pieces (.function s returns) k := by
  have hfunction := (functionType hs h hreturns hread hk : Reads docs _ _ _ k)
  obtain ⟨typeParams, thisType, params⟩ := s
  cases typeParams with
  | cons p ps =>
    rw [Ty.pieces]
    exact bind_nil peek (hfunction.bind_pure rfl)
  | nil =>
    obtain ⟨-, hthisRead, hparams⟩ := Signature.forall_parts.1 h
    have hthis : ∀ t ∈ thisType, t.Read ty ∧ 1 ≤ t.rank := fun t ht =>
      ⟨hthisRead t ht, hs.thisType t ht⟩
    have harrow : Reads docs (Parser.arrowParams ty) (Ty.piecesSignature ⟨[], thisType, params⟩ ++
        [mark .arrow]) (some (thisType, params)) (returns.pieces ++ k) :=
      bind (attempt (Reads.params _ hthis hs.params hparams)) (bind_token accept (pure _))
    have hend : Reads [] (Parser.returnType ty >>= fun returns =>
        Pure.pure (Ty.function ⟨[], thisType, params⟩ returns)) returns.pieces
        (.function ⟨[], thisType, params⟩ returns) k :=
      (hread.returns hreturns [] k hk).map
    have hpieces : (Ty.function ⟨[], thisType, params⟩ returns).pieces ++ k =
        Ty.piecesSignature ⟨[], thisType, params⟩ ++ [mark .arrow] ++ (returns.pieces ++ k) := by
      simp only [Ty.pieces, List.append_assoc, List.cons_append, List.nil_append]
    refine bind_nil peek ?_
    intro c hc
    rw [hpieces] at hc
    obtain ⟨c₁, hresult₁, hc₁⟩ := harrow c hc
    rw [docsAfter_append] at hc₁
    obtain ⟨c₂, hresult₂, hc₂⟩ := hend c₁ hc₁
    refine ⟨c₂, ?_, ?_⟩
    · show (arrowParams ty c >>= fun x => _) = _
      rw [hresult₁]
      exact hresult₂
    · rw [Ty.pieces, docsAfter_append, docsAfter_token]
      exact hc₂

/-- A constructor type is read back. It takes in all that could go on with its return type. -/
theorem primaryType_construct {isAbstract : Bool} {s : Signature Ty} {returns : Ty} (hs : s.Fits)
    (h : ∀ u, .type u ∈ s.parts → u.Read ty) (hreturns : returns.FitsReturn)
    (hread : returns.Read ty) (hk : endsType (kindAt k 0) = true) :
    Reads docs (Parser.primaryType ty) (Ty.construct isAbstract s returns).pieces
      (.construct isAbstract s returns) k := by
  have hfunction := (functionType hs h hreturns hread hk : Reads [] _ _ _ k)
  rw [Ty.pieces]
  cases isAbstract with
  | true =>
    exact bind_nil peek
      (bind_nil (peekAt 1) (bind_token skip (bind_token skip (hfunction.bind_pure rfl))))
  | false => exact bind_nil peek (bind_token skip (hfunction.bind_pure rfl))

/-! ## Tuples -/

/-- Whether tokens begin like an element with a name. -/
def elementAhead (ps : List Piece) : Bool :=
  (kindAt ps 0).isIdentLike && (kindAt ps 1 == .punct .colon ||
    (kindAt ps 1 == .punct .question && kindAt ps 2 == .punct .colon))

/-- Whether an element has a name is told by the tokens that follow. -/
theorem atElementName : Reads docs Parser.atElementName [] (elementAhead k) k :=
  bind_nil peek (bind_nil (peekAt 1) (bind_nil (peekAt 1) (bind_nil (peekAt 2) (pure _))))

/-- An element without a name does not look like one with a name. -/
theorem elementAhead_type {t : Ty} (hleads : Leads (kinds t.pieces)) {optional : Bool}
    (hk : kindAt k 0 ≠ .punct .colon ∧ kindAt k 0 ≠ .punct .question) :
    elementAhead (t.pieces ++ (piecesIf optional [mark .question] ++ k)) = false := by
  obtain ⟨kind, ks, hkinds, -⟩ := hleads.start
  rw [Bool.eq_false_iff]
  intro heq
  simp only [elementAhead, Bool.and_eq_true, Bool.or_eq_true, beq_iff_eq] at heq
  obtain ⟨hident, hnext⟩ := heq
  rw [kindAt_head hkinds] at hident
  cases ks with
  | cons next ks =>
    -- The second token belongs to the type.
    have hsecond := hleads.second hkinds hident
    rw [kindAt_second hkinds] at hnext
    rcases hnext with rfl | ⟨rfl, -⟩
    · cases hsecond
    · cases hsecond
  | nil =>
    have hthird : kindAt (t.pieces ++ (piecesIf optional [mark .question] ++ k)) 2 =
        kindAt (piecesIf optional [mark .question] ++ k) 1 := by
      rw [kindAt, kinds_append, hkinds]
      rfl
    rw [kindAt_single hkinds, hthird] at hnext
    cases optional with
    | true =>
      rcases hnext with hnext | ⟨-, hnext⟩
      · cases hnext
      · exact hk.1 hnext
    | false =>
      rcases hnext with hnext | ⟨hnext, -⟩
      · exact hk.1 hnext
      · exact hk.2 hnext

/-- A tuple element is read back in front of a comma or the closing bracket. -/
theorem tupleElement {e : TupleElement Ty} (he : e.Fits) (h : e.type.Read ty)
    (hk : endsEntry .rbracket (kindAt k 0)) :
    Reads docs (Parser.tupleElement ty) e.pieces e k := by
  have hend : endsType (kindAt k 0) = true ∧ kindAt k 0 ≠ .punct .colon ∧
      kindAt k 0 ≠ .punct .question := by
    rcases hk with hk | hk <;> rw [hk] <;> exact ⟨rfl, by rintro ⟨⟩, by rintro ⟨⟩⟩
  obtain ⟨type, elementName, optional, rest⟩ := e
  have hleads := type.leads h.canonical he.type
  cases elementName with
  | none =>
    obtain ⟨kind, ks, hkinds, hstart⟩ := hleads.start
    rw [TupleElement.pieces]
    refine bind (accept_if fun _ => ?_) ?_
    · rw [List.append_assoc, kindAt_head hkinds]
      rintro rfl
      cases hstart
    · refine bind_nil (a := false) ?_ (bind (h.ends he.type ?_) ?_)
      · rw [List.append_assoc]
        exact elementAhead_type hleads hend.2 ▸ atElementName
      · cases optional with
        | true => rfl
        | false => exact hend.1
      · exact (accept_if fun _ => hend.2.2).map
          (g := fun optional => (⟨type, none, optional, rest⟩ : TupleElement Ty))
  | some elementName =>
    have hname : (wordKind elementName).isIdentLike = true :=
      (Bool.and_eq_true_iff.1 (he.name elementName rfl)).2
    rw [TupleElement.pieces]
    refine bind (accept_if fun _ => ?_) ?_
    · intro heq
      have hkind : wordKind elementName = .punct .ellipsis := heq
      rw [hkind] at hname
      cases hname
    · refine bind_nil (a := true) ?_ (bind_token (identifier hname) ?_)
      · have hahead : elementAhead (.token (wordKind elementName) ::
            (piecesIf optional [mark .question] ++ mark .colon :: type.pieces) ++ k) = true := by
          cases optional <;> exact Bool.and_eq_true_iff.2 ⟨hname, rfl⟩
        exact hahead ▸ atElementName
      · exact bind (accept_if fun _ => (by rintro ⟨⟩))
          (bind_token expect (h.ends he.type hend.1).map)

/-- An element does not begin with what ends the list. -/
theorem tupleElement_start {e : TupleElement Ty} (he : e.Fits) (h : e.type.Canonical) :
    kindAt (e.pieces ++ k) 0 ≠ .punct .rbracket ∧ kindAt (e.pieces ++ k) 0 ≠ .eof := by
  obtain ⟨type, elementName, optional, rest⟩ := e
  rw [TupleElement.pieces]
  cases rest with
  | true => exact ⟨by rintro ⟨⟩, by rintro ⟨⟩⟩
  | false =>
    cases elementName with
    | none =>
      obtain ⟨kind, ks, hkinds, hstart⟩ := (type.leads h he.type).start
      have hfirst : kindAt (piecesIf false [mark .ellipsis] ++
          (type.pieces ++ piecesIf optional [mark .question]) ++ k) 0 = kind := by
        rw [piecesIf, if_neg Bool.false_ne_true, List.nil_append, List.append_assoc]
        exact kindAt_head hkinds
      rw [hfirst]
      constructor
      · rintro rfl
        cases hstart
      · rintro rfl
        cases hstart
    | some elementName =>
      show wordKind elementName ≠ _ ∧ wordKind elementName ≠ _
      rcases wordKind_cases elementName with hw | ⟨kw, hw, -⟩
      · rw [hw]
        exact ⟨by rintro ⟨⟩, by rintro ⟨⟩⟩
      · rw [hw]
        exact ⟨by rintro ⟨⟩, by rintro ⟨⟩⟩

/-- A tuple is read back. -/
theorem primaryType_tuple {es : List (TupleElement Ty)} (hes : ∀ e ∈ es, e.Fits)
    (h : ∀ e ∈ es, e.type.Read ty) :
    Reads docs (Parser.primaryType ty) (Ty.tuple es).pieces (.tuple es) k := by
  rw [Ty.pieces, Ty.piecesElements_eq]
  exact bind_nil peek (bind_token expect (bind (list .rbracket (by rintro ⟨⟩)
    (fun e he k hk => tupleElement (hes e he) (h e he) hk)
    fun e he k => tupleElement_start (hes e he) (h e he).canonical)
    (bind_token expect (pure (Ty.tuple es)))))

/-! ## Braces -/

/-- Whether a mapped type is ahead is told by the tokens that follow. -/
theorem atMappedType : Reads docs Parser.atMappedType [] (mappedHead (kindAt k)) k := by
  have hend (offset : Nat) : Reads docs (do
      return (← Parser.peekAt (1 + offset)) == .punct .lbracket &&
        (← Parser.peekAt (2 + offset)).isIdentLike &&
        (← Parser.peekAt (3 + offset)) == .keyword .inKw) []
      (kindAt k (1 + offset) == .punct .lbracket &&
        (kindAt k (2 + offset)).isIdentLike && kindAt k (3 + offset) == .keyword .inKw) k :=
    bind_nil (peekAt _) (bind_nil (peekAt _) (bind_nil (peekAt _) (pure _)))
  have hsign : Reads docs (do
      let offset ← if (← Parser.peekAt 2) == .keyword .readonly then Pure.pure 2 else Pure.pure 0
      return (← Parser.peekAt (1 + offset)) == .punct .lbracket &&
        (← Parser.peekAt (2 + offset)).isIdentLike &&
        (← Parser.peekAt (3 + offset)) == .keyword .inKw) []
      (let offset := if kindAt k 2 == .keyword .readonly then 2 else 0
      kindAt k (1 + offset) == .punct .lbracket &&
      (kindAt k (2 + offset)).isIdentLike && kindAt k (3 + offset) == .keyword .inKw) k := by
    refine bind_nil (peekAt 2) ?_
    rw [List.nil_append]
    cases kindAt k 2 == .keyword .readonly with
    | true => exact bind_nil (pure 2) (hend 2)
    | false => exact bind_nil (pure 0) (hend 0)
  refine bind_nil (peekAt 1) ?_
  rw [List.nil_append, mappedHead, mappedOffset]
  generalize kindAt k 1 = first
  cases first with
  | keyword kw =>
    cases kw with
    | readonly => exact bind_nil (pure 1) (hend 1)
    | _ => exact bind_nil (pure 0) (hend 0)
  | punct p =>
    cases p with
    | plus | minus => exact hsign
    | _ => exact bind_nil (pure 0) (hend 0)
  | _ => exact bind_nil (pure 0) (hend 0)

/-- A modifier of a mapped type, if it stands there. -/
theorem mappedModifier (kind : Kind) (hkind : kind ≠ .punct .plus ∧ kind ≠ .punct .minus)
    {m : Option MappedModifier}
    (hk : m = none → kindAt k 0 ≠ kind ∧ kindAt k 0 ≠ .punct .plus ∧ kindAt k 0 ≠ .punct .minus) :
    Reads docs (Parser.mappedModifier kind) (MappedModifier.pieces kind m) m k := by
  rcases m with _ | m
  · obtain ⟨hword, hplus, hminus⟩ := hk rfl
    exact bind_nil (accept_other hword) (bind_nil (accept_other hplus)
      (bind_nil (accept_other hminus) (pure none)))
  · cases m with
    | add =>
      exact bind_nil (accept_other hkind.1.symm) (bind_token accept (expect.bind (pure _)))
    | remove =>
      exact bind_nil (accept_other hkind.2.symm) (bind_nil (accept_other nofun)
        (bind_token accept (expect.bind (pure _))))
    | preserve => exact accept.bind (pure _)

/-- The closing brace cannot be taken for a part of what begins a mapped type. -/
theorem mappedHead_append {ps : List Piece} {ks : List Kind}
    (hkinds : kinds ps = .punct .lbrace :: (ks ++ [.punct .rbrace]))
    (h : mappedHead (kindAt ps) = false) : mappedHead (kindAt (ps ++ k)) = false := by
  have hinside (n : Nat) (hn : n ≤ ks.length + 1) : kindAt ps n = kindAt (ps ++ k) n := by
    have hlength : n < (kinds ps).length := by
      rw [hkinds, List.length_cons, List.length_append, List.length_singleton]
      omega
    simp only [kindAt, kinds_append, List.getD_eq_getElem?_getD, List.getElem?_append_left hlength]
  have hlast : kindAt (ps ++ k) (ks.length + 1) = .punct .rbrace := by
    rw [← hinside _ (Nat.le_refl _), kindAt, hkinds]
    simp
  -- A token before the brace is no brace, so the next one is no further than the brace.
  have hgo {n : Nat} (hn : n ≤ ks.length + 1) (hkind : kindAt (ps ++ k) n ≠ .punct .rbrace) :
      n + 1 ≤ ks.length + 1 := by
    rcases Nat.lt_or_eq_of_le hn with hlt | rfl
    · exact hlt
    · exact absurd hlast hkind
  have hfirst := hinside 1 (by omega)
  have hoffset : mappedOffset (kindAt ps) = mappedOffset (kindAt (ps ++ k)) ∧
      1 + mappedOffset (kindAt (ps ++ k)) ≤ ks.length + 1 := by
    -- After a sign, the next token is not the brace either.
    have hsign (hne : kindAt (ps ++ k) 1 ≠ .punct .rbrace) :
        (if kindAt ps 2 == .keyword .readonly then 2 else 0) =
          (if kindAt (ps ++ k) 2 == .keyword .readonly then 2 else 0) ∧
        1 + (if kindAt (ps ++ k) 2 == .keyword .readonly then 2 else 0) ≤ ks.length + 1 := by
      have hsecond := hgo (by omega) hne
      rw [hinside 2 hsecond]
      split
      · next heq => exact ⟨rfl, hgo hsecond (beq_iff_eq.1 heq ▸ (by rintro ⟨⟩))⟩
      · exact ⟨rfl, by omega⟩
    unfold mappedOffset
    rw [hfirst]
    split
    · next heq => exact ⟨rfl, hgo (by omega) (heq ▸ (by rintro ⟨⟩))⟩
    · next heq => exact hsign (heq ▸ (by rintro ⟨⟩))
    · next heq => exact hsign (heq ▸ (by rintro ⟨⟩))
    · exact ⟨rfl, by omega⟩
  rw [Bool.eq_false_iff] at h ⊢
  intro hhead
  refine h ?_
  simp only [mappedHead, Bool.and_eq_true, beq_iff_eq] at hhead ⊢
  obtain ⟨⟨hbracket, hident⟩, hin⟩ := hhead
  have hsecond := hgo hoffset.2 (hbracket ▸ (by rintro ⟨⟩))
  have hthird := hgo (n := 2 + mappedOffset (kindAt (ps ++ k))) (by omega) (by
    intro heq
    rw [heq] at hident
    cases hident)
  rw [hoffset.1, hinside _ hoffset.2, hinside _ (by omega), hinside _ (by omega)]
  exact ⟨⟨hbracket, hident⟩, hin⟩

/-- An object type is read back if its members do not begin like a mapped type. -/
theorem primaryType_object {ms : List (Member Ty)} (hms : ∀ m ∈ ms, m.Fits)
    (h : ∀ m ∈ ms, ∀ u, .type u ∈ m.parts → u.Read ty)
    (hhead : mappedHead (kindAt (Ty.object ms).pieces) = false) :
    Reads docs (Parser.primaryType ty) (Ty.object ms).pieces (.object ms) k := by
  have hkinds : kinds (Ty.object ms).pieces =
      .punct .lbrace :: (kinds (Ty.piecesMembers ms) ++ [.punct .rbrace]) := by
    rw [Ty.pieces, kinds_token, kinds_append]
    rfl
  have hnone : Reads docs Parser.atMappedType [] false ((Ty.object ms).pieces ++ k) :=
    mappedHead_append hkinds hhead ▸ atMappedType
  rw [Ty.pieces] at hnone ⊢
  exact bind_nil peek (bind_nil hnone (members hms h).map)

/-- A mapped type is read back. -/
theorem primaryType_mapped {key : String} {keys : Ty} {nameType : Option Ty} {value : Ty}
    {readonlyMod optionalMod : Option MappedModifier} (hkey : isIdent key = true)
    (hkeys : keys.Read ty ∧ 1 ≤ keys.rank) (hopens : nameType.isSome = true → keys.opens = false)
    (hname : ∀ t ∈ nameType, t.Read ty ∧ 1 ≤ t.rank) (hvalue : value.Read ty ∧ 1 ≤ value.rank) :
    Reads docs (Parser.primaryType ty)
      (Ty.mapped key keys nameType value readonlyMod optionalMod).pieces
      (.mapped key keys nameType value readonlyMod optionalMod) k := by
  have hident : (wordKind key).isIdentLike = true := (Bool.and_eq_true_iff.1 hkey).2
  rw [Ty.pieces]
  refine bind_nil peek (bind_nil (a := true) ?_ ?_)
  · have hahead : mappedHead (kindAt (mark .lbrace :: (MappedModifier.pieces (.keyword .readonly)
        readonlyMod ++ mark .lbracket :: .token (wordKind key) :: word .inKw :: (keys.pieces ++
        (Ty.piecesAfter (.keyword .asKw) nameType ++ mark .rbracket ::
        (MappedModifier.pieces (.punct .question) optionalMod ++ mark .colon ::
        (value.pieces ++ [mark .semicolon, mark .rbrace]))))) ++ k)) = true := by
      rcases readonlyMod with _ | _ | _ | _ <;>
        exact Bool.and_eq_true_iff.2 ⟨Bool.and_eq_true_iff.2 ⟨rfl, hident⟩, rfl⟩
    exact hahead ▸ atMappedType
  · refine bind_token expect (bind
      (mappedModifier (.keyword .readonly) (by decide)
        fun _ => ⟨by rintro ⟨⟩, by rintro ⟨⟩, by rintro ⟨⟩⟩) ?_)
    refine bind_token expect (bind_token (identifier hident) (bind_token expect ?_))
    refine bind (hkeys.1.reads hkeys.2 [] _ ?_) ?_
    · cases nameType with
      | none => exact Ty.before_of_endsType (Nat.le_refl 1) rfl
      | some u => exact ⟨Nat.zero_lt_one, fun ho => by rw [hopens rfl] at ho; cases ho⟩
    refine bind (afterType hname rfl (by rintro ⟨⟩)) (bind_token expect ?_)
    refine bind (mappedModifier (.punct .question) (by decide)
      fun _ => ⟨by rintro ⟨⟩, by rintro ⟨⟩, by rintro ⟨⟩⟩) (bind_token expect ?_)
    refine bind (hvalue.1.ends hvalue.2 rfl) (bind_token (discard accept) (bind_token expect ?_))
    exact pure _

end Parser.Reads

end DeclLayer
