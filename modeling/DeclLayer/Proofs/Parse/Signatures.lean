import DeclLayer.Proofs.Parse.Speculation

/-!
# Reading signatures

What the parsers for type parameters, parameters and return types read, if the types inside are read
as they should be (`Ty.Read`). A type ends where the next token cannot go on with it:
`Token.binding` is how tightly the next token binds, and `Ty.Before` says at which level a type ends
in front of it.
-/

namespace DeclLayer

open Token DeclLayer.Parser Literal

/-! ## Where types end -/

/-- How tightly the token after a type binds to it. What ends a type at any level has the number
zero. -/
def Token.binding : Kind → Nat
  | .eof | .keyword .asKw | .keyword .implements => 0
  | .keyword .extendsKw => 1
  | .punct .pipe => 2
  | .punct .amp => 3
  | .punct .lbracket => 4
  | .punct .comma | .punct .semicolon | .punct .rparen | .punct .rbracket | .punct .rbrace
  | .punct .rangle | .punct .question | .punct .colon | .punct .eq | .punct .lbrace => 0
  | _ => 5

/-- A type that is read at a level ends in front of a token. A type that ends with an open part ends
only where all types do. There, the word `as` would still go on with the name `asserts`. -/
def Ty.Before (t : Ty) (level : Nat) (next : Kind) : Prop :=
  binding next < level ∧ (t.opens = true → binding next = 0 ∧ next ≠ .keyword .asKw)

/-- Whether every type ends in front of a token. -/
def Token.endsType (kind : Kind) : Bool :=
  binding kind == 0 && kind != .keyword .asKw

/-- In front of what ends every type, a type ends at any level. -/
theorem Ty.before_of_endsType {t : Ty} {level : Nat} {next : Kind} (hlevel : 1 ≤ level)
    (h : endsType next = true) : t.Before level next := by
  obtain ⟨hbinding, has⟩ := Bool.and_eq_true_iff.1 h
  have hzero : binding next = 0 := beq_iff_eq.1 hbinding
  exact ⟨by omega, fun _ => ⟨hzero, bne_iff_ne.1 has⟩⟩

/-- What ends a type begins no type. -/
theorem Token.startsType_of_endsType {kind : Kind} (h : endsType kind = true) :
    isPredicateParam kind = false ∧ kind ≠ .keyword .is := by
  cases kind with
  | keyword k => cases k <;> first | exact ⟨rfl, nofun⟩ | cases h
  | ident => cases h
  | string | number | template | punct | directive | eof => exact ⟨rfl, nofun⟩

/-- A parser reads a type in front of whatever ends it, also in return position. -/
structure Ty.Read (ty : Parser Ty) (t : Ty) : Prop where
  canonical : t.Canonical
  reads : 1 ≤ t.rank → ∀ docs k, t.Before 1 (kindAt k 0) → Reads docs ty t.pieces t k
  returns : t.FitsReturn → ∀ docs k, endsType (kindAt k 0) = true →
    Reads docs (returnType ty) t.pieces t k

/-- A type is read in front of what ends every type. -/
theorem Ty.Read.ends {ty : Parser Ty} {t : Ty} (h : t.Read ty) (hrank : 1 ≤ t.rank) {docs : Docs}
    {k : List Piece} (hk : endsType (kindAt k 0) = true) : Reads docs ty t.pieces t k :=
  h.reads hrank docs k (Ty.before_of_endsType (Nat.le_refl 1) hk)

namespace Token

variable {ps k : List Piece} {kind next : Kind} {ks : List Kind}

/-- The first token of pieces with something behind them. -/
theorem kindAt_head (h : kinds ps = kind :: ks) : kindAt (ps ++ k) 0 = kind := by
  rw [kindAt, kinds_append, h]
  rfl

/-- The second token of pieces with something behind them. -/
theorem kindAt_second (h : kinds ps = kind :: next :: ks) : kindAt (ps ++ k) 1 = next := by
  rw [kindAt, kinds_append, h]
  rfl

/-- Behind a single token stands the first token of what follows. -/
theorem kindAt_single (h : kinds ps = [kind]) : kindAt (ps ++ k) 1 = kindAt k 0 := by
  rw [kindAt, kinds_append, h]
  rfl

/-- Whether a token can stand in front of a parameter. -/
def isParamModifier : Kind → Bool
  | .keyword .publicKw | .keyword .privateKw | .keyword .protectedKw | .keyword .readonly => true
  | _ => false

/-- The tokens in front of which a list goes on or ends. -/
def endsEntry (close : Punct) (kind : Kind) : Prop :=
  kind = .punct .comma ∨ kind = .punct close

end Token

namespace Parser

variable {ty : Parser Ty} {docs : Docs} {k : List Piece}

/-- The pieces of an entry of a list of parameters. -/
def ParamEntry.pieces : ParamEntry → List Piece
  | .this t => word .this :: mark .colon :: t.pieces
  | .param p => p.pieces

/-- The entries of a list of parameters. -/
def entriesOf (thisType : Option Ty) (ps : List (Param Ty)) : List ParamEntry :=
  thisType.toList.map .this ++ ps.map .param

/-- The declared type of `this` is found among the entries. -/
theorem thisTypeOf_entriesOf (thisType : Option Ty) (ps : List (Param Ty)) :
    thisTypeOf (entriesOf thisType ps) = thisType := by
  have hps : ps.filterMap (fun _ => (none : Option Ty)) = [] :=
    List.filterMap_eq_nil_iff.2 fun _ _ => rfl
  rw [thisTypeOf, entriesOf, List.filterMap_append, List.filterMap_map, List.filterMap_map]
  cases thisType with
  | none => exact congrArg List.getLast? hps
  | some t => exact congrArg (fun ts => (t :: ts).getLast?) hps

/-- The parameters are found among the entries. -/
theorem paramsOf_entriesOf (thisType : Option Ty) (ps : List (Param Ty)) :
    paramsOf (entriesOf thisType ps) = ps := by
  rw [paramsOf, entriesOf, List.filterMap_append, List.filterMap_map, List.filterMap_map]
  cases thisType <;> exact List.filterMap_some

namespace Reads

/-! ## Type parameters and arguments -/

/-- A type that may be missing, after the token that leads to it. -/
theorem afterType {lead : Kind} {t : Option Ty} (h : ∀ u ∈ t, u.Read ty ∧ 1 ≤ u.rank)
    (hk : endsType (kindAt k 0) = true) (hlead : kindAt k 0 ≠ lead) :
    Reads docs (Parser.after lead ty) (Ty.piecesAfter lead t) t k := by
  rw [Ty.piecesAfter_eq]
  exact after_option (fun u hu => (h u hu).1.ends (h u hu).2 hk) fun _ => hlead

/-- Nothing is passed in front of a name that no other name follows. -/
theorem skipVariance (n : Nat) (h : (kindAt k 1).isIdentLike = false) :
    Reads docs (Parser.skipVariance (n + 1)) [] () k := by
  refine bind_nil peek ?_
  have hstop : Reads docs (do
      if (← Parser.peekAt 1).isIdentLike then
        Parser.skip
        Parser.skipVariance n) [] () k := by
    refine bind_nil (peekAt 1) ?_
    rw [List.nil_append, h]
    exact pure ()
  split
  · exact hstop
  · exact hstop
  · exact hstop
  · exact pure ()

/-- A type parameter is read back. -/
theorem typeParam {p : TypeParam Ty} (hp : p.Fits) (h : ∀ u, .type u ∈ p.parts → u.Read ty)
    (hk : endsEntry .rangle (kindAt k 0)) : Reads docs (Parser.typeParam ty) p.pieces p k := by
  obtain ⟨hconstraintRead, hdefaultRead⟩ := TypeParam.forall_parts.1 h
  have hconstraint : ∀ u ∈ p.constraint, u.Read ty ∧ 1 ≤ u.rank := fun u hu =>
    ⟨hconstraintRead u hu, hp.constraint u hu⟩
  have hdefault : ∀ u ∈ p.default, u.Read ty ∧ 1 ≤ u.rank := fun u hu =>
    ⟨hdefaultRead u hu, hp.default u hu⟩
  have hend : endsType (kindAt k 0) = true ∧ kindAt k 0 ≠ .punct .eq ∧
      kindAt k 0 ≠ .keyword .extendsKw ∧ (kindAt k 0).isIdentLike = false := by
    rcases hk with hk | hk <;> rw [hk] <;> exact ⟨rfl, by rintro ⟨⟩, by rintro ⟨⟩, rfl⟩
  have hafter : endsType (kindAt (Ty.piecesAfter (.punct .eq) p.default ++ k) 0) = true ∧
      kindAt (Ty.piecesAfter (.punct .eq) p.default ++ k) 0 ≠ .keyword .extendsKw ∧
      (kindAt (Ty.piecesAfter (.punct .eq) p.default ++ k) 0).isIdentLike = false := by
    cases p.default with
    | none => exact ⟨hend.1, hend.2.2⟩
    | some u => exact ⟨rfl, by rintro ⟨⟩, rfl⟩
  have hnext : (kindAt (p.pieces ++ k) 1).isIdentLike = false := by
    rw [TypeParam.pieces, List.cons_append, kindAt_token_succ, List.append_assoc]
    cases p.constraint with
    | none => exact hafter.2.2
    | some u => rfl
  have hname : (wordKind p.name).isIdentLike = true := (Bool.and_eq_true_iff.1 hp.name).2
  refine bind_nil turns (bind_nil (skipVariance _ hnext) ?_)
  rw [TypeParam.pieces]
  refine bind_token (identifier hname) ?_
  exact bind (afterType hconstraint hafter.1 hafter.2.1) (afterType hdefault hend.1 hend.2.1).map

/-- Type parameters are read back up to the closing mark, for any number of turns above their
number. -/
theorem typeParamsFor : ∀ (ps : List (TypeParam Ty)) (n : Nat) (docs : Docs), ps ≠ [] →
    ps.length < n → (∀ p ∈ ps, p.Fits) → (∀ p ∈ ps, ∀ u, .type u ∈ p.parts → u.Read ty) →
    Reads docs (Parser.typeParamsFor ty n) (separatedBy .comma (ps.map TypeParam.pieces)) ps
      (mark .rangle :: k)
  | p :: ps, n, docs, _, hn, hfits, h => by
    obtain ⟨n, rfl⟩ := Nat.exists_eq_succ_of_ne_zero (Nat.ne_of_gt (Nat.zero_lt_of_lt hn))
    obtain ⟨hp, hps⟩ := List.forall_mem_cons.1 hfits
    obtain ⟨hup, hups⟩ := List.forall_mem_cons.1 h
    cases ps with
    | nil =>
      rw [List.map_cons, List.map_nil, separatedBy]
      refine bind (typeParam hp hup (.inr rfl)) ?_
      exact bind_nil (accept_other (by rintro ⟨⟩)) (pure [p])
    | cons q qs =>
      rw [List.map_cons, separatedBy]
      refine bind (typeParam hp hup (.inl rfl)) ?_
      refine bind_token accept ?_
      have hname : wordKind q.name ≠ .punct .rangle := by
        rcases wordKind_cases q.name with hw | ⟨kw, hw, -⟩ <;> rw [hw] <;> rintro ⟨⟩
      refine bind_nil (check_other hname) ?_
      exact (typeParamsFor (q :: qs) n [] (List.cons_ne_nil _ _) (Nat.lt_of_succ_lt_succ hn) hps
        hups).map

/-- Type parameters in angle brackets are read back, or none if no bracket stands there. -/
theorem typeParams {ps : List (TypeParam Ty)} (hfits : ∀ p ∈ ps, p.Fits)
    (h : ∀ p ∈ ps, ∀ u, .type u ∈ p.parts → u.Read ty) (hk : kindAt k 0 ≠ .punct .langle) :
    Reads docs (Parser.typeParams ty) (angledBy (Ty.piecesTypeParams ps)) ps k := by
  rw [Ty.piecesTypeParams_eq]
  cases ps with
  | nil => exact bind_nil (accept_other hk) (pure [])
  | cons p ps =>
    refine bind_token accept (bind_nil turns ?_)
    have hlength := length_le_separatedBy .comma TypeParam.pieces (p :: ps)
    refine bind (typeParamsFor (p :: ps) _ [] (List.cons_ne_nil _ _) ?_ hfits h) ?_
    · simp only [kinds_append, List.length_append, kinds_token, List.length_cons] at hlength ⊢
      omega
    · exact bind_token expect (pure (p :: ps))

/-- Types with commas between them. -/
theorem typeList {ts : List Ty} (hne : ts ≠ []) (h : ∀ u ∈ ts, u.Read ty ∧ 1 ≤ u.rank)
    (hk : endsType (kindAt k 0) = true) (hcomma : kindAt k 0 ≠ .punct .comma) :
    Reads docs (Parser.separated .comma ty) (separatedBy .comma (Ty.piecesList ts)) ts k := by
  rw [Ty.piecesList_eq]
  refine separated hne hcomma (fun u hu docs k => ?_) fun u hu docs => ?_
  · obtain ⟨hread, hrank⟩ := h u (List.dropLast_subset ts hu)
    exact hread.ends hrank rfl
  · obtain ⟨hread, hrank⟩ := h u (List.mem_of_getLast? hu)
    exact hread.ends hrank hk

/-- Type arguments in angle brackets are read back. -/
theorem typeArgs {t : Ty} {ts : List Ty} (h : ∀ u ∈ t :: ts, u.Read ty ∧ 1 ≤ u.rank) :
    Reads docs (Parser.typeArgs ty) (angledBy (Ty.piecesList (t :: ts))) (t :: ts) k :=
  bind_token expect (bind (typeList (List.cons_ne_nil t ts) h rfl nofun)
    (bind_token expect (pure _)))

/-- Type arguments are read back, or none if no bracket stands there. -/
theorem optionalTypeArgs {ts : List Ty} (h : ∀ u ∈ ts, u.Read ty ∧ 1 ≤ u.rank)
    (hk : kindAt k 0 ≠ .punct .langle) :
    Reads docs (Parser.optionalTypeArgs ty) (angledBy (Ty.piecesList ts)) ts k := by
  cases ts with
  | nil => exact bind_nil (check_other hk) (pure [])
  | cons t ts => exact bind_nil (check _) (typeArgs h)

/-! ## Parameters -/

/-- A name in front of what comes after the name of a parameter is not passed. -/
theorem skipParamModifiers (n : Nat) (h : isParamModifier (kindAt k 0) = true →
    followsParamName (kindAt k 1) = true) :
    Reads docs (Parser.skipParamModifiers (n + 1)) [] () k := by
  have hmarks (hmodifier : isParamModifier (kindAt k 0) = true) :
      kindAt k 1 = .punct .colon ∨ kindAt k 1 = .punct .question ∨ kindAt k 1 = .punct .comma ∨
        kindAt k 1 = .punct .rparen := by
    have hnext := h hmodifier
    unfold followsParamName at hnext
    split at hnext <;> simp_all
  refine bind_nil peek ?_
  rw [List.nil_append]
  split
  iterate 4
    · next heq =>
      refine bind_nil (peekAt 1) ?_
      rcases hmarks (by rw [heq]; rfl) with h | h | h | h <;> rw [List.nil_append, h] <;>
        exact pure ()
  · exact pure ()

/-- What comes after the name of a parameter. -/
theorem followsParamName_after {p : Param Ty} (hk : endsEntry .rparen (kindAt k 0)) :
    followsParamName (kindAt ((piecesIf p.optional [mark .question] ++
      Ty.piecesAfter (.punct .colon) p.type) ++ k) 0) = true := by
  cases p.optional with
  | true => rfl
  | false =>
    cases p.type with
    | some u => rfl
    | none => rcases hk with hk | hk <;> exact hk ▸ rfl

/-- What the name of a parameter begins with: a word, or the bracket of a pattern. -/
def startsParamName (kind : Kind) : Prop :=
  kind.isIdentLike = true ∨ kind = .punct .lbracket ∨ kind = .punct .lbrace

/-- What begins the name of a parameter is no other token. -/
theorem startsParamName.ne {kind other : Kind} (h : startsParamName kind)
    (hident : other.isIdentLike = false) (hbracket : other ≠ .punct .lbracket)
    (hbrace : other ≠ .punct .lbrace) : kind ≠ other := by
  rintro rfl
  rcases h with h | h | h
  · exact Bool.false_ne_true (hident.symm.trans h)
  · exact hbracket h
  · exact hbrace h

/-- The name of a parameter is one token if it begins like a modifier. -/
theorem paramName_start {text : String} (h : IsParamName text) (k : List Piece) :
    startsParamName (kindAt ([name text] ++ k) 0) ∧
      (isParamModifier (kindAt ([name text] ++ k) 0) = true →
        kindAt ([name text] ++ k) 1 = kindAt k 0) := by
  cases h with
  | ident h =>
    obtain ⟨hword, hident⟩ := Bool.and_eq_true_iff.1 h
    rw [name, if_pos hword]
    exact ⟨.inl hident, fun _ => rfl⟩
  | pattern ls cuts solid closes first =>
    have hword : isWord text = false := first.elim isWord_of_punct isWord_of_punct
    rw [name, hword, if_neg Bool.false_ne_true, List.singleton_append]
    rcases first with first | first
    · rw [kindAt_verbatim first]
      exact ⟨.inr (.inl rfl), by rintro ⟨⟩⟩
    · rw [kindAt_verbatim first]
      exact ⟨.inr (.inr rfl), by rintro ⟨⟩⟩

/-- A parameter begins with its name or with three dots. -/
theorem param_start {p : Param Ty} (hp : p.Fits) (k : List Piece) :
    kindAt (p.pieces ++ k) 0 = .punct .ellipsis ∨ startsParamName (kindAt (p.pieces ++ k) 0) := by
  rw [Param.pieces]
  cases p.rest with
  | true => exact .inl rfl
  | false => exact .inr (paramName_start hp.name _).1

/-- The name of a parameter is read back, a pattern as its source text. -/
theorem paramName {text : String} (h : IsParamName text) :
    Reads docs (if kindAt ([name text] ++ k) 0 == .punct .lbrace ||
      kindAt ([name text] ++ k) 0 == .punct .lbracket then Parser.balanced else Parser.identifier)
      [name text] text k := by
  cases h with
  | ident h =>
    obtain ⟨hword, hident⟩ := Bool.and_eq_true_iff.1 h
    rw [name, if_pos hword, List.singleton_append, kindAt_token_zero]
    have hread := (identifier hident : Reads docs _ _ _ k)
    generalize wordKind text = kind at hident hread ⊢
    cases kind with
    | ident | keyword => exact hread
    | string | number | template | punct | directive | eof => cases hident
  | pattern ls cuts solid closes first =>
    have hword : isWord text = false := first.elim isWord_of_punct isWord_of_punct
    have hbalanced := (balanced solid closes : Reads docs _ _ _ k)
    rw [name, hword, if_neg Bool.false_ne_true, List.singleton_append]
    rcases first with first | first
    · rw [kindAt_verbatim first]
      exact hbalanced
    · rw [kindAt_verbatim first]
      exact hbalanced

/-- Neither `this` nor a word in front of the parameter stands first. -/
theorem param_ahead {p : Param Ty} (hp : p.Fits) (hk : endsEntry .rparen (kindAt k 0)) :
    kindAt (p.pieces ++ k) 0 ≠ .keyword .this ∧
      (isParamModifier (kindAt (p.pieces ++ k) 0) = true →
        followsParamName (kindAt (p.pieces ++ k) 1) = true) := by
  constructor
  · rcases param_start hp k with h | h
    · rw [h]
      rintro ⟨⟩
    · exact h.ne rfl (by rintro ⟨⟩) (by rintro ⟨⟩)
  · have hfollows := followsParamName_after (p := p) hk
    rw [Param.pieces]
    cases p.rest with
    | true => rintro ⟨⟩
    | false =>
      intro hmodifier
      have hnext := (paramName_start hp.name _).2 hmodifier
      exact (congrArg followsParamName hnext).trans hfollows

/-- A parameter is read back. -/
theorem paramEntry_param {p : Param Ty} (hp : p.Fits) (h : ∀ u, .type u ∈ p.parts → u.Read ty)
    (hk : endsEntry .rparen (kindAt k 0)) :
    Reads docs (Parser.paramEntry ty) p.pieces (.param p) k := by
  have htype : ∀ u ∈ p.type, u.Read ty ∧ 1 ≤ u.rank := fun u hu =>
    ⟨Param.forall_parts.1 h u hu, hp.type u hu⟩
  have hend : endsType (kindAt k 0) = true ∧ kindAt k 0 ≠ .punct .colon := by
    rcases hk with hk | hk <;> rw [hk] <;> exact ⟨rfl, by rintro ⟨⟩⟩
  have hquestion : kindAt (Ty.piecesAfter (.punct .colon) p.type ++ k) 0 ≠ .punct .question := by
    cases p.type with
    | some u => rintro ⟨⟩
    | none => rcases hk with hk | hk <;> exact fun h => by cases hk.symm.trans h
  obtain ⟨hthis, hmodifier⟩ := param_ahead hp hk
  have hellipsis (k : List Piece) : kindAt ([name p.name] ++ k) 0 ≠ .punct .ellipsis :=
    (paramName_start hp.name k).1.ne rfl nofun nofun
  refine bind_nil (check_other hthis) (bind_nil (peekAt 1) ?_)
  refine bind_nil turns (bind_nil (skipParamModifiers _ hmodifier) ?_)
  -- The tokens from the name on.
  generalize hafter : piecesIf p.optional [mark .question] ++
    Ty.piecesAfter (.punct .colon) p.type = after
  have hpieces : p.pieces = piecesIf p.rest [mark .ellipsis] ++ ([name p.name] ++ after) := by
    rw [← hafter]
    rfl
  rw [hpieces]
  refine bind (accept_if fun _ => by rw [List.append_assoc]; exact hellipsis _) ?_
  -- The name, and what comes after it.
  have hread := (paramName hp.name :
    Reads (docsAfter docs (piecesIf p.rest [mark .ellipsis])) _ _ _ (after ++ k))
  have hend (docs : Docs) : Reads docs (do
      let optional ← acceptMark .question
      let type ← Parser.after (.punct .colon) ty
      return ParamEntry.param ⟨p.name, type, optional, p.rest⟩) after (.param p) k := by
    rw [← hafter]
    exact bind (accept_if fun _ => hquestion) (afterType htype hend.1 hend.2).map
  refine bind_nil (check _) (bind_nil (check _) ?_)
  rw [List.append_assoc]
  split at hread
  · next hbracket =>
    rw [if_pos hbracket]
    exact bind hread (hend _)
  · next hbracket =>
    rw [if_neg hbracket]
    exact bind hread (hend _)

/-- The declared type of `this` is read back. -/
theorem paramEntry_this {t : Ty} (h : t.Read ty) (hrank : 1 ≤ t.rank)
    (hk : endsEntry .rparen (kindAt k 0)) :
    Reads docs (Parser.paramEntry ty) (word .this :: mark .colon :: t.pieces) (.this t) k := by
  have hend : endsType (kindAt k 0) = true := by
    rcases hk with hk | hk <;> rw [hk] <;> rfl
  refine bind_nil (check _) (bind_nil (peekAt 1) ?_)
  exact bind_token skip (bind_token skip (h.ends hrank hend).map)

/-- An entry of a list of parameters does not begin with what ends the list. -/
theorem paramEntry_start {p : Param Ty} (hp : p.Fits) :
    kindAt (p.pieces ++ k) 0 ≠ .punct .rparen ∧ kindAt (p.pieces ++ k) 0 ≠ .eof := by
  rcases param_start hp k with h | h
  · rw [h]
    exact ⟨nofun, nofun⟩
  · exact ⟨h.ne rfl nofun nofun, h.ne rfl nofun nofun⟩

/-- Parameters in round brackets. -/
theorem params (thisType : Option Ty) {ps : List (Param Ty)}
    (hthis : ∀ t ∈ thisType, t.Read ty ∧ 1 ≤ t.rank) (hps : ∀ p ∈ ps, p.Fits)
    (h : ∀ p ∈ ps, ∀ u, .type u ∈ p.parts → u.Read ty) :
    Reads docs (Parser.params ty) (mark .lparen :: (separatedBy .comma (Ty.piecesThis thisType ++
      Ty.piecesParams ps) ++ [mark .rparen])) (thisType, ps) k := by
  have hpieces : Ty.piecesThis thisType ++ Ty.piecesParams ps =
      (entriesOf thisType ps).map ParamEntry.pieces := by
    rw [Ty.piecesThis_eq, Ty.piecesParams_eq, entriesOf, List.map_append, List.map_map,
      List.map_map]
    rfl
  have hlist : Reads [] (Parser.list .rparen (Parser.paramEntry ty))
      (separatedBy .comma ((entriesOf thisType ps).map ParamEntry.pieces)) (entriesOf thisType ps)
      (mark .rparen :: k) := by
    refine list .rparen nofun (fun entry hentry k hk => ?_) fun entry hentry k => ?_
    · rcases List.mem_append.1 hentry with hentry | hentry
      · obtain ⟨t, ht, rfl⟩ := List.mem_map.1 hentry
        have htype := hthis t (Option.mem_toList.1 ht)
        exact paramEntry_this htype.1 htype.2 hk
      · obtain ⟨p, hp, rfl⟩ := List.mem_map.1 hentry
        exact paramEntry_param (hps p hp) (h p hp) hk
    · rcases List.mem_append.1 hentry with hentry | hentry
      · obtain ⟨t, -, rfl⟩ := List.mem_map.1 hentry
        exact ⟨nofun, nofun⟩
      · obtain ⟨p, hp, rfl⟩ := List.mem_map.1 hentry
        exact paramEntry_start (hps p hp)
  rw [hpieces]
  refine bind_token expect (bind hlist (bind_token expect ?_))
  rw [thisTypeOf_entriesOf, paramsOf_entriesOf]
  exact pure (thisType, ps)

/-- A signature: type parameters, if there are any, and parameters. -/
theorem signature {s : Signature Ty} (hs : s.Fits) (h : ∀ u, .type u ∈ s.parts → u.Read ty) :
    Reads docs (Parser.signature ty) (Ty.piecesSignature s) s k := by
  obtain ⟨typeParams, thisType, params⟩ := s
  obtain ⟨htypeParams, hthisRead, hparams⟩ := Signature.forall_parts.1 h
  have hthis : ∀ t ∈ thisType, t.Read ty ∧ 1 ≤ t.rank := fun t ht =>
    ⟨hthisRead t ht, hs.thisType t ht⟩
  rw [Ty.piecesSignature]
  refine bind (Reads.typeParams hs.typeParams htypeParams (by rintro ⟨⟩)) ?_
  exact (Reads.params _ hthis hs.params hparams).map

/-! ## Return types -/

/-- The subject of a predicate is read back. -/
theorem predicateParam {param : String} (h : isPredicateParam (wordKind param) = true) :
    Reads docs Parser.predicateParam [.token (wordKind param)] param k := by
  rcases Bool.or_eq_true_iff.1 h with h | h
  · have hkind : wordKind param = .keyword .this := beq_iff_eq.1 h
    have hparam : param = "this" := by
      rcases wordKind_cases param with hw | ⟨kw, hw, htext⟩
      · rw [hw] at hkind
        cases hkind
      · rw [hw] at hkind
        cases hkind
        exact htext.symm
    rw [hkind, hparam]
    exact accept.bind (pure "this")
  · refine bind_nil (accept_other ?_) (identifier h)
    intro heq
    have hthis : wordKind param = .keyword .this := heq
    rw [hthis] at h
    cases h

/-- A predicate in return position. -/
theorem returnType_predicate {asserts : Bool} {param : String} {type : Option Ty}
    (hparam : isPredicateParam (wordKind param) = true)
    (htype : asserts = false → type.isSome = true ∧ param ≠ "asserts")
    (h : ∀ u ∈ type, u.Read ty ∧ 1 ≤ u.rank) (hk : endsType (kindAt k 0) = true) :
    Reads docs (Parser.returnType ty) (Ty.predicate asserts param type).pieces
      (.predicate asserts param type) k := by
  refine bind_nil peek (bind_nil (peekAt 1) ?_)
  rw [Ty.pieces]
  cases asserts with
  | true =>
    rw [if_pos]
    · refine bind_token skip (bind_token (predicateParam hparam) ?_)
      exact (afterType h hk (startsType_of_endsType hk).2).map
    · exact hparam
  | false =>
    obtain ⟨hsome, hname⟩ := htype rfl
    obtain ⟨u, rfl⟩ := Option.isSome_iff_exists.1 hsome
    have hasserts : wordKind param ≠ .ident "asserts" := by
      rcases wordKind_cases param with hw | ⟨kw, hw, -⟩
      · rw [hw]
        exact fun heq => hname (Kind.ident.inj heq)
      · rw [hw]
        rintro ⟨⟩
    rw [if_neg, if_pos]
    · refine bind_token (predicateParam hparam) (bind_token expect ?_)
      exact ((h u rfl).1.ends (h u rfl).2 hk).map
    · exact Bool.and_eq_true_iff.2 ⟨hparam, rfl⟩
    · exact fun heq => hasserts (beq_iff_eq.1 (Bool.and_eq_true_iff.1 heq).1)

/-- A type in return position that is no predicate. -/
theorem returnType {t : Ty} (h : t.FitsReturn) (hrank : 1 ≤ t.rank) (hcanonical : t.Canonical)
    (hread : Reads docs ty t.pieces t k) (hk : endsType (kindAt k 0) = true) :
    Reads docs (Parser.returnType ty) t.pieces t k := by
  have hleads := t.leads hcanonical hrank
  obtain ⟨hparam, his⟩ := startsType_of_endsType hk
  obtain ⟨kind, ks, hkinds, -⟩ := hleads.start
  have hfirst : kindAt (t.pieces ++ k) 0 = kind := kindAt_head hkinds
  -- The second token belongs to the type, or it is the one that ends it.
  have hsecond : (kind = .ident "asserts" → isPredicateParam (kindAt (t.pieces ++ k) 1) = false) ∧
      kindAt (t.pieces ++ k) 1 ≠ .keyword .is := by
    cases ks with
    | nil =>
      rw [kindAt_single hkinds]
      exact ⟨fun _ => hparam, his⟩
    | cons next ks =>
      have hnext : kindAt t.pieces 1 = next := by
        rw [kindAt, hkinds]
        rfl
      rw [kindAt_second hkinds]
      refine ⟨?_, hnext ▸ h hrank⟩
      rintro rfl
      exact (hkinds ▸ hleads).second_asserts
  refine bind_nil peek (bind_nil (peekAt 1) ?_)
  rw [if_neg, if_neg]
  · exact hread
  · exact fun heq => hsecond.2 (beq_iff_eq.1 (Bool.and_eq_true_iff.1 heq).2)
  · intro heq
    obtain ⟨hasserts, hpredicate⟩ := Bool.and_eq_true_iff.1 heq
    rw [hsecond.1 (hfirst.symm.trans (beq_iff_eq.1 hasserts))] at hpredicate
    cases hpredicate

/-- A return type after a colon, if there is one. -/
theorem annotatedReturn {returns : Option Ty} (h : ∀ u ∈ returns, u.Read ty ∧ u.FitsReturn)
    (hk : endsType (kindAt k 0) = true) (hcolon : kindAt k 0 ≠ .punct .colon) :
    Reads docs (Parser.annotatedReturn ty) (Ty.piecesAfter (.punct .colon) returns) returns k := by
  rw [Ty.piecesAfter_eq]
  exact after_option (fun u hu => (h u hu).1.returns (h u hu).2 [] k hk) fun _ => hcolon

/-- A signature with a return type after an arrow. -/
theorem functionType {s : Signature Ty} {returns : Ty} (hs : s.Fits)
    (h : ∀ u, .type u ∈ s.parts → u.Read ty) (hreturns : returns.FitsReturn)
    (hread : returns.Read ty) (hk : endsType (kindAt k 0) = true) :
    Reads docs (Parser.functionType ty) (Ty.piecesSignature s ++ mark .arrow :: returns.pieces)
      (s, returns) k :=
  bind (signature hs h) (bind_token expect (hread.returns hreturns [] k hk).map)

end Reads

end Parser

end DeclLayer
