import DeclLayer.Proofs.Render.Canonical

/-!
# The brackets of types

The brackets in the tokens of a type are balanced (`Ty.balanced`), and so are those of the tokens
between the brackets that some types stand in.
-/

namespace DeclLayer

namespace Parser

open Token Literal

/-! ## Brackets -/

/-- Tokens that open and close the same brackets: they can be left out when brackets are counted. -/
def Balanced (kinds : List Kind) : Prop :=
  ∀ depth rest, closesAt (depth + 1) (kinds ++ rest) = closesAt (depth + 1) rest

/-- The marks that are no brackets. -/
def noBracket (kind : Kind) : Bool :=
  bracketDepth 1 kind == 1

namespace Balanced

variable {ks ms : List Kind}

/-- No tokens are balanced. -/
theorem nil : Balanced [] := fun _ _ => rfl

/-- Balanced tokens after each other are balanced. -/
theorem append (hk : Balanced ks) (hm : Balanced ms) : Balanced (ks ++ ms) := by
  intro depth rest
  rw [List.append_assoc, hk, hm]

/-- A token that is no bracket leaves the depth as it is. -/
theorem bracketDepth_of_noBracket {kind : Kind} (h : noBracket kind = true) (depth : Nat) :
    bracketDepth depth kind = depth := by
  unfold noBracket bracketDepth at h
  unfold bracketDepth
  split at h
  · cases h
  · cases h
  · cases h
  · cases h
  · cases h
  · cases h
  · rfl

/-- A token that is no bracket is balanced. -/
theorem single {kind : Kind} (h : noBracket kind = true) : Balanced [kind] := by
  intro depth rest
  rw [List.singleton_append, closesAt, bracketDepth_of_noBracket h, if_neg (Nat.succ_ne_zero _)]

/-- A token that is no bracket in front of balanced ones. -/
theorem cons {kind : Kind} (h : noBracket kind = true) (hk : Balanced ks) :
    Balanced (kind :: ks) :=
  (single h).append hk

/-- What stands after an opening bracket, up to the closing one. -/
theorem closesAt_concat (close : Kind) (hclose : ∀ depth, bracketDepth (depth + 1) close = depth)
    (hk : Balanced ks) : closesAt 1 (ks ++ [close]) = true := by
  rw [hk 0, closesAt, hclose 0]
  rfl

/-- Balanced tokens in brackets are balanced. -/
theorem bracketed {opening close : Kind}
    (hopening : ∀ depth, bracketDepth depth opening = depth + 1)
    (hclose : ∀ depth, bracketDepth (depth + 1) close = depth) (hk : Balanced ks) :
    Balanced (opening :: (ks ++ [close])) := by
  intro depth rest
  rw [List.cons_append, closesAt, hopening, if_neg (Nat.succ_ne_zero _), List.append_assoc, hk,
    List.singleton_append, closesAt, hclose, if_neg (Nat.succ_ne_zero _)]

/-- Brackets that are closed with the last token are so at any depth. -/
theorem of_closesAt {opening : Kind} (hopening : ∀ depth, bracketDepth depth opening = depth + 1)
    (h : closesAt 0 (opening :: ks) = true) : Balanced (opening :: ks) := by
  have hshift (ks : List Kind) : ∀ inner, closesAt (inner + 1) ks = true → ∀ depth rest,
      closesAt (depth + 1 + (inner + 1)) (ks ++ rest) = closesAt (depth + 1) rest := by
    induction ks with
    | nil => nofun
    | cons kind ks ih =>
      intro inner h depth rest
      have hdepth : bracketDepth (depth + 1 + (inner + 1)) kind =
          depth + 1 + bracketDepth (inner + 1) kind := by
        unfold bracketDepth
        split <;> omega
      rw [closesAt] at h
      rw [List.cons_append, closesAt, hdepth, if_neg (by omega)]
      split at h
      · next hzero =>
        obtain rfl : ks = [] := List.isEmpty_iff.1 h
        rw [hzero, List.nil_append]
      · next hzero =>
        obtain ⟨inner', hinner⟩ := Nat.exists_eq_succ_of_ne_zero hzero
        rw [hinner] at h ⊢
        exact ih inner' h depth rest
  intro depth rest
  rw [closesAt, hopening, if_neg (Nat.succ_ne_zero _)] at h
  rw [List.cons_append, closesAt, hopening, if_neg (Nat.succ_ne_zero _)]
  exact hshift ks 0 h depth rest

/-! ### Lists of pieces -/

/-- Comments hold no tokens. -/
theorem docs (docs : Docs) : Balanced (kinds (docs.map Piece.doc)) := by
  rw [kinds_docs]
  exact nil

/-- A token that may be missing and is no bracket. -/
theorem optional {kind : Kind} (h : noBracket kind = true) (condition : Bool) :
    Balanced (kinds (piecesIf condition [.token kind])) := by
  cases condition with
  | true => exact single h
  | false => exact nil

/-- Balanced parts with separators between them are balanced. -/
theorem separatedBy {separator : Punct} (hseparator : noBracket (.punct separator) = true) :
    ∀ {parts : List (List Piece)}, (∀ ps ∈ parts, Balanced (kinds ps)) →
      Balanced (kinds (Token.separatedBy separator parts))
  | [], _ => nil
  | ps :: parts, h => by
    obtain ⟨hps, hparts⟩ := List.forall_mem_cons.1 h
    rw [Token.separatedBy, kinds_append]
    refine hps.append ?_
    clear h hps
    induction parts with
    | nil => exact nil
    | cons qs parts ih =>
      obtain ⟨hqs, hrest⟩ := List.forall_mem_cons.1 hparts
      rw [List.flatMap_cons, kinds_append, kinds_token]
      exact (cons hseparator hqs).append (ih hrest)

/-- Balanced parts in angle brackets, which do not count as brackets here, are balanced. -/
theorem angledBy {parts : List (List Piece)} (h : ∀ ps ∈ parts, Balanced (kinds ps)) :
    Balanced (kinds (Token.angledBy parts)) := by
  rw [Token.angledBy]
  split
  · exact nil
  · rw [kinds_token, kinds_append]
    exact cons rfl ((separatedBy rfl h).append (single rfl))

/-! ### Names -/

/-- A word is no bracket. -/
theorem wordKind (w : String) : noBracket (Token.wordKind w) = true := by
  rcases wordKind_cases w with hw | ⟨k, hw, -⟩
  · rw [hw]
    rfl
  · rw [hw]
    rfl

/-- Dots and words are no brackets. -/
theorem dottedRest (ws : List String) : Balanced (kinds (Token.dottedRest ws)) := by
  induction ws with
  | nil => exact nil
  | cons w ws ih => exact cons rfl (cons (wordKind w) ih)

/-- A dotted name holds no brackets. -/
theorem dotted (name : String) : Balanced (kinds (Token.dotted name)) := by
  obtain ⟨w, ws, hwords⟩ := List.exists_cons_of_ne_nil (nameWords_ne_nil name)
  rw [(dotted_eq hwords).1]
  exact cons (wordKind w) (dottedRest ws)

/-- A text whose first token is an opening bracket, and that closes it with its last. -/
theorem textKinds {text : String} {p : Punct}
    (first : (Token.textKinds text).head? = some (.punct p))
    (hp : ∀ depth, bracketDepth depth (.punct p) = depth + 1)
    (closes : closesAt 0 (Token.textKinds text) = true) : Balanced (Token.textKinds text) := by
  cases hkinds : Token.textKinds text with
  | nil =>
    rw [hkinds] at closes
    cases closes
  | cons kind ks =>
    rw [hkinds] at first closes
    cases first
    exact of_closesAt hp closes

/-- A name is one token, or a text that closes its brackets. -/
theorem name {text : String}
    (h : isWord text = false → Balanced (Token.textKinds text)) :
    Balanced (kinds [Token.name text]) := by
  rw [Token.name]
  split
  · exact single (wordKind text)
  · next hword =>
    rw [kinds_verbatim, kinds_nil, List.append_nil]
    exact h (Bool.eq_false_iff.2 hword)

/-- A property name is balanced: a computed one closes its brackets. -/
theorem propertyName {text : String} (h : IsPropertyName text) :
    Balanced (kinds [Token.name text]) := by
  refine name fun hword => ?_
  cases h with
  | word h =>
    rw [h] at hword
    cases hword
  | quoted value h =>
    subst h
    rw [Token.textKinds, (Cuts.quote value).lexemes_eq]
    exact single rfl
  | number h =>
    rw [Token.textKinds, (Cuts.number h).lexemes_eq]
    exact single rfl
  | computed ls cuts solid closes first => exact textKinds first (fun _ => rfl) closes

/-- The name of a parameter is balanced: a pattern closes its brackets. -/
theorem paramName {text : String} (h : IsParamName text) : Balanced (kinds [Token.name text]) := by
  refine name fun hword => ?_
  cases h with
  | ident h =>
    rw [isIdent, hword] at h
    cases h
  | pattern ls cuts solid closes first =>
    rcases first with first | first
    · exact textKinds first (fun _ => rfl) closes
    · exact textKinds first (fun _ => rfl) closes

end Balanced

end Parser

open Token DeclLayer.Parser

section

/-- The brackets of a type are balanced. -/
def Ty.Nested (t : Ty) : Prop :=
  Balanced (kinds t.pieces)

/-- A type that may be missing, with a token in front of it. -/
theorem Ty.balanced_after (lead : Kind) (hlead : noBracket lead = true) {t : Option Ty}
    (h : ∀ u ∈ t, u.Nested) : Balanced (kinds (Ty.piecesAfter lead t)) := by
  cases t with
  | none => exact .nil
  | some u => exact .cons hlead (h u rfl)

/-- The pieces of nested types are balanced. -/
theorem Ty.balanced_list {tys : List Ty} (h : ∀ t ∈ tys, t.Nested) :
    ∀ ps ∈ Ty.piecesList tys, Balanced (kinds ps) := by
  rw [Ty.piecesList_eq]
  intro ps hps
  obtain ⟨t, ht, rfl⟩ := List.mem_map.1 hps
  exact h t ht

/-- The brackets of a type parameter are balanced. -/
theorem TypeParam.balanced (p : TypeParam Ty) (h : ∀ u, .type u ∈ p.parts → u.Nested) :
    Balanced (kinds p.pieces) := by
  obtain ⟨hconstraint, hdefault⟩ := TypeParam.forall_parts.1 h
  rw [TypeParam.pieces, kinds_token, kinds_append]
  exact .cons (Balanced.wordKind _)
    ((Ty.balanced_after _ rfl hconstraint).append (Ty.balanced_after _ rfl hdefault))

/-- The brackets of a parameter are balanced. -/
theorem Param.balanced {p : Param Ty} (hp : p.Fits) (h : ∀ u, .type u ∈ p.parts → u.Nested) :
    Balanced (kinds p.pieces) := by
  have hname := Balanced.paramName hp.name
  have htype := Ty.balanced_after (.punct .colon) rfl (Param.forall_parts.1 h)
  have hpieces : p.pieces = piecesIf p.rest [mark .ellipsis] ++ ([Token.name p.name] ++
      (piecesIf p.optional [mark .question] ++ Ty.piecesAfter (.punct .colon) p.type)) := rfl
  rw [hpieces, kinds_append, kinds_append, kinds_append]
  exact (Balanced.optional rfl _).append (hname.append ((Balanced.optional rfl _).append htype))

/-- The brackets of a signature are balanced. -/
theorem Signature.balanced {s : Signature Ty} (hs : s.Fits)
    (h : ∀ u, .type u ∈ s.parts → u.Nested) : Balanced (kinds (Ty.piecesSignature s)) := by
  obtain ⟨typeParams, thisType, params⟩ := s
  obtain ⟨hpartsTypeParams, hthis, hpartsParams⟩ := Signature.forall_parts.1 h
  have htypeParams : ∀ ps ∈ Ty.piecesTypeParams typeParams, Balanced (kinds ps) := by
    rw [Ty.piecesTypeParams_eq]
    intro ps hps
    obtain ⟨p, hp, rfl⟩ := List.mem_map.1 hps
    exact p.balanced (hpartsTypeParams p hp)
  have hentries : ∀ ps ∈ Ty.piecesThis thisType ++ Ty.piecesParams params,
      Balanced (kinds ps) := by
    rw [Ty.piecesThis_eq, Ty.piecesParams_eq]
    intro ps hps
    rcases List.mem_append.1 hps with hps | hps
    · obtain ⟨u, hu, rfl⟩ := List.mem_map.1 hps
      exact .cons rfl (.cons rfl (hthis u (Option.mem_toList.1 hu)))
    · obtain ⟨p, hp, rfl⟩ := List.mem_map.1 hps
      exact p.balanced (hs.params p hp) (hpartsParams p hp)
  rw [Ty.piecesSignature, kinds_append, kinds_token, kinds_append]
  exact (Balanced.angledBy htypeParams).append
    (.bracketed (fun _ => rfl) (fun _ => rfl) (.separatedBy rfl hentries))

/-- The brackets of a call signature are balanced. -/
theorem Callable.balanced {c : Callable Ty} (hc : c.Fits)
    (h : ∀ u, .type u ∈ c.parts → u.Nested) : Balanced (kinds c.pieces) := by
  obtain ⟨hpartsSignature, hpartsReturns⟩ := Callable.forall_parts.1 h
  have hsignature := c.signature.balanced hc.signature hpartsSignature
  have hreturns := Ty.balanced_after (.punct .colon) rfl hpartsReturns
  rw [Callable.pieces, kinds_append, kinds_append]
  exact hsignature.append (hreturns.append (.single rfl))

/-- The brackets of a member are balanced. -/
theorem Member.balanced {m : Member Ty} (hm : m.Fits) (h : ∀ u, .type u ∈ m.parts → u.Nested) :
    Balanced (kinds m.pieces) := by
  rw [Member.pieces, kinds_append]
  refine (Balanced.docs _).append ?_
  cases hm with
  | @property p docs name type =>
    have htype := Part.forall_singleton.1 h
    have hbody : (Member.property p).body = piecesIf p.readonly [word .readonly] ++
        ([Token.name p.name] ++ (piecesIf p.optional [mark .question] ++ ([mark .colon] ++
        (p.type.pieces ++ [mark .semicolon])))) := rfl
    rw [hbody]
    simp only [kinds_append]
    exact (Balanced.optional rfl _).append ((Balanced.propertyName name.property).append
      ((Balanced.optional rfl _).append ((Balanced.single rfl).append
        (htype.append (.single rfl)))))
  | @method d name callable _ =>
    have hkind : Balanced (kinds d.kind.pieces) := by
      cases d.kind <;> exact .nil
    have hbody : (Member.method d).body = d.kind.pieces ++ ([Token.name d.name] ++
        (piecesIf d.optional [mark .question] ++
        Callable.pieces ⟨d.docs, d.signature, d.returns⟩)) := rfl
    rw [hbody]
    simp only [kinds_append]
    exact hkind.append ((Balanced.propertyName name.property).append
      ((Balanced.optional rfl _).append (Callable.balanced callable h)))
  | call callable => exact Callable.balanced callable h
  | construct callable => exact .cons rfl (Callable.balanced callable h)
  | @index i index =>
    obtain ⟨hkey, hvalue⟩ := IndexSignature.forall_parts.1 h
    have hbody : (Member.index i).body = piecesIf i.readonly [word .readonly] ++
        ((mark .lbracket :: ((.token (wordKind i.key) :: mark .colon :: i.keyType.pieces) ++
        [mark .rbracket])) ++ (mark .colon :: (i.value.pieces ++ [mark .semicolon]))) := by
      simp only [Member.body, IndexSignature.pieces, List.append_assoc, List.cons_append,
        List.nil_append]
    rw [hbody]
    simp only [kinds_append, kinds_token, kinds_nil]
    refine (Balanced.optional rfl _).append
      ((Balanced.bracketed (fun _ => rfl) (fun _ => rfl) ?_).append ?_)
    · exact .cons (Balanced.wordKind _) (.cons rfl hkey)
    · exact .cons rfl (hvalue.append (.single rfl))

/-! ### Inside brackets -/

/-- The tokens between the braces of an object type. -/
theorem Ty.balanced_members {members : List (Member Ty)} (hmembers : ∀ m ∈ members, m.Fits)
    (h : ∀ u, .type u ∈ (Ty.object members).parts → u.Nested) :
    Balanced (kinds (Ty.piecesMembers members)) := by
  have hparts : ∀ m ∈ members, ∀ u, .type u ∈ m.parts → u.Nested := Part.forall_flatMap.1 h
  clear h
  rw [Ty.piecesMembers_eq]
  induction members with
  | nil => exact .nil
  | cons m ms ih =>
    obtain ⟨hm, hms⟩ := List.forall_mem_cons.1 hmembers
    obtain ⟨hpartsMember, hpartsRest⟩ := List.forall_mem_cons.1 hparts
    rw [List.flatMap_cons, kinds_append]
    exact (Member.balanced hm hpartsMember).append (ih hms hpartsRest)

/-- The tokens between the brackets of a tuple type. -/
theorem Ty.balanced_elements {elements : List (TupleElement Ty)}
    (h : ∀ u, .type u ∈ (Ty.tuple elements).parts → u.Nested) :
    Balanced (kinds (separatedBy .comma (Ty.piecesElements elements))) := by
  rw [Ty.piecesElements_eq]
  refine .separatedBy rfl fun ps hps => ?_
  obtain ⟨⟨type, name, optional, rest⟩, he, rfl⟩ := List.mem_map.1 hps
  have htype : type.Nested := Part.forall_map.1 h _ he
  cases name with
  | none =>
    rw [TupleElement.pieces, kinds_append, kinds_append]
    exact (Balanced.optional rfl _).append (htype.append (.optional rfl _))
  | some name =>
    rw [TupleElement.pieces, kinds_append, kinds_token, kinds_append, kinds_token]
    exact (Balanced.optional rfl _).append
      (.cons (Balanced.wordKind name) ((Balanced.optional rfl _).append (.cons rfl htype)))

/-- The pieces of a mapped type between its braces. -/
def Ty.mappedBody (key : String) (keys : Ty) (nameType : Option Ty) (value : Ty)
    (readonlyMod optionalMod : Option MappedModifier) : List Piece :=
  MappedModifier.pieces (.keyword .readonly) readonlyMod ++
    ((mark .lbracket :: ((.token (wordKind key) :: word .inKw :: (keys.pieces ++
    Ty.piecesAfter (.keyword .asKw) nameType)) ++ [mark .rbracket])) ++
    (MappedModifier.pieces (.punct .question) optionalMod ++ mark .colon ::
    (value.pieces ++ [mark .semicolon])))

/-- The pieces of a mapped type are braces around its body. -/
theorem Ty.pieces_mapped (key : String) (keys : Ty) (nameType : Option Ty) (value : Ty)
    (readonlyMod optionalMod : Option MappedModifier) :
    (Ty.mapped key keys nameType value readonlyMod optionalMod).pieces = mark .lbrace ::
      (Ty.mappedBody key keys nameType value readonlyMod optionalMod ++ [mark .rbrace]) := by
  simp only [Ty.pieces, Ty.mappedBody, List.append_assoc, List.cons_append, List.nil_append]

/-- The tokens between the braces of a mapped type. -/
theorem Ty.balanced_mapped {key : String} {keys : Ty} {nameType : Option Ty} {value : Ty}
    {readonlyMod optionalMod : Option MappedModifier}
    (h : ∀ u, .type u ∈ (Ty.mapped key keys nameType value readonlyMod optionalMod).parts →
      u.Nested) :
    Balanced (kinds (Ty.mappedBody key keys nameType value readonlyMod optionalMod)) := by
  obtain ⟨hkeys, hpartsName, hvalue⟩ := Ty.forall_parts_mapped.1 h
  have hname := Ty.balanced_after (.keyword .asKw) rfl hpartsName
  have hmodifier {kind : Kind} (hkind : noBracket kind = true) (m : Option MappedModifier) :
      Balanced (kinds (MappedModifier.pieces kind m)) := by
    rcases m with _ | m
    · exact .nil
    · cases m with
      | add => exact .cons rfl (.single hkind)
      | remove => exact .cons rfl (.single hkind)
      | preserve => exact .single hkind
  simp only [Ty.mappedBody, kinds_append, kinds_token, kinds_nil]
  refine (hmodifier rfl _).append
    ((Balanced.bracketed (fun _ => rfl) (fun _ => rfl) ?_).append ((hmodifier rfl _).append ?_))
  · exact .cons (Balanced.wordKind key) (.cons rfl (hkeys.append hname))
  · exact .cons rfl (hvalue.append (.single rfl))

/-! ### Types -/

/-- The brackets of a canonical type are balanced. -/
theorem Ty.balanced (t : Ty) (h : t.Canonical) : t.Nested := by
  induction t using Ty.parts_induction with
  | step t ih =>
  have hparts : ∀ u, .type u ∈ t.parts → u.Nested := fun u hu => ih u hu (h.part hu)
  clear ih
  have hfits := h.fits
  clear h
  unfold Ty.Nested
  cases hfits with
  | @named name args hname hargs =>
    rw [Ty.pieces, kinds_append]
    exact (Balanced.dotted name).append (.angledBy (Ty.balanced_list (Part.forall_map.1 hparts)))
  | primitive p => exact .single (Balanced.wordKind _)
  | string value => exact .single rfl
  | @number text _ =>
    rw [Ty.pieces]
    unfold numberPieces
    split
    · exact .cons rfl (.single rfl)
    · exact .single rfl
  | boolean value => exact .single rfl
  | union | intersection =>
    rw [Ty.pieces]
    exact .separatedBy rfl (Ty.balanced_list (Part.forall_map.1 hparts))
  | @function signature returns hsignature =>
    obtain ⟨hs, hreturns⟩ := Ty.forall_parts_function.1 hparts
    rw [Ty.pieces, kinds_append]
    exact (signature.balanced hsignature hs).append (.cons rfl hreturns)
  | @construct isAbstract signature returns hsignature =>
    obtain ⟨hs, hreturns⟩ := Ty.forall_parts_construct.1 hparts
    rw [Ty.pieces, kinds_append, kinds_token, kinds_append]
    exact (Balanced.optional rfl _).append
      (.cons rfl ((signature.balanced hsignature hs).append (.cons rfl hreturns)))
  | @object members hmembers =>
    rw [Ty.pieces, kinds_token, kinds_append]
    exact .bracketed (fun _ => rfl) (fun _ => rfl) (Ty.balanced_members hmembers hparts)
  | @array element =>
    have helement : element.Nested := Part.forall_singleton.1 hparts
    rw [Ty.pieces, kinds_append]
    exact Balanced.append helement (Balanced.nil.bracketed (fun _ => rfl) fun _ => rfl)
  | @tuple elements =>
    rw [Ty.pieces, kinds_token, kinds_append]
    exact .bracketed (fun _ => rfl) (fun _ => rfl) (Ty.balanced_elements hparts)
  | @typeOf name _ => exact .cons rfl (.dotted name)
  | keyOf | readonly => exact .cons rfl (Part.forall_singleton.1 hparts)
  | uniqueSymbol => exact .cons rfl (.single rfl)
  | @index target key =>
    obtain ⟨htarget, hkey⟩ := Ty.forall_parts_index.1 hparts
    rw [Ty.pieces, kinds_append, kinds_token, kinds_append]
    exact Balanced.append htarget (.bracketed (fun _ => rfl) (fun _ => rfl) hkey)
  | @conditional check bound whenTrue whenFalse =>
    obtain ⟨hcheck, hbound, htrue, hfalse⟩ := Ty.forall_parts_conditional.1 hparts
    simp only [Ty.pieces, kinds_append, kinds_token]
    exact hcheck.append (.cons rfl (hbound.append (.cons rfl (htrue.append (.cons rfl hfalse)))))
  | mapped =>
    rw [Ty.pieces_mapped, kinds_token, kinds_append]
    exact .bracketed (fun _ => rfl) (fun _ => rfl) (Ty.balanced_mapped hparts)
  | @infer name _ => exact .cons rfl (.single (Balanced.wordKind name))
  | template => exact .single rfl
  | @imported module qualifier args isTypeof =>
    have hargs := Balanced.angledBy (Ty.balanced_list (Part.forall_map.1 hparts))
    have hmodule : Balanced [Kind.punct .lparen, .string module, .punct .rparen] :=
      (.single rfl : Balanced [.string module]).bracketed (fun _ => rfl) fun _ => rfl
    cases qualifier with
    | none =>
      simp only [Ty.pieces, kinds_append, kinds_token, List.nil_append]
      exact (Balanced.optional rfl _).append (.cons rfl (hmodule.append hargs))
    | some q =>
      simp only [Ty.pieces, kinds_append, kinds_token]
      exact (Balanced.optional rfl _).append
        (.cons rfl (hmodule.append ((Balanced.dottedRest _).append hargs)))
  | @predicate asserts param type =>
    have htype := Ty.balanced_after (.keyword .is) rfl (Ty.forall_optionParts.1 hparts)
    rw [Ty.pieces, kinds_append, kinds_token]
    exact (Balanced.optional rfl _).append (.cons (Balanced.wordKind param) htype)
  | paren =>
    rw [Ty.pieces, kinds_token, kinds_append]
    exact .bracketed (fun _ => rfl) (fun _ => rfl) (Part.forall_singleton.1 hparts)
  | this => exact .single rfl

end

end DeclLayer
