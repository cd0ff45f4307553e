import DeclLayer.Proofs.Render.Brackets

/-!
# How the tokens of a type begin

A type in round brackets begins like the parameters of a function, and the parser tries those first.
`Token.Leads` says what it can find there: if a type begins with what could name a parameter, it
does not go on like a parameter. It holds of every canonical type (`Ty.leads`).
-/

namespace DeclLayer

open Token DeclLayer.Parser

namespace Token

/-- Whether a token comes after the name of a parameter. -/
def followsParamName : Kind → Bool
  | .punct .colon | .punct .question | .punct .comma | .punct .rparen => true
  | _ => false

/-- Whether a type can begin with a token. -/
def startsType : Kind → Bool
  | .ident _ | .string _ | .number _ | .template _ => true
  | .keyword k => k.contextual || k == .typeof || k == .importKw || k == .new || k == .trueKw ||
      k == .falseKw || k == .void || k == .null || k == .this
  | .punct p => p == .minus || p == .lparen || p == .lbrace || p == .lbracket || p == .langle
  | _ => false

/-- Whether a token goes on with the type before it. -/
def continuesType : Kind → Bool
  | .keyword k => k == .extendsKw
  | .punct p => p == .dot || p == .langle || p == .lbracket || p == .amp || p == .pipe
  | _ => false

/-- What goes on with a type goes on with no parameter and names no subject of a predicate. -/
theorem followsParamName_of_continuesType {kind : Kind} (h : continuesType kind = true) :
    followsParamName kind = false ∧ isPredicateParam kind = false := by
  cases kind with
  | keyword k =>
    obtain rfl := beq_iff_eq.1 h
    exact ⟨rfl, rfl⟩
  | punct p => cases p <;> first | exact ⟨rfl, rfl⟩ | cases h
  | ident | string | number | template | directive | eof => cases h

/-- What begins a type does not come after the name of a parameter. -/
theorem followsParamName_of_startsType {kind : Kind} (h : startsType kind = true) :
    followsParamName kind = false := by
  cases kind with
  | punct p => cases p <;> first | rfl | cases h
  | ident | string | number | template | keyword | directive | eof => rfl

/-- Every identifier can begin a type. -/
theorem startsType_of_isIdentLike {kind : Kind} (h : kind.isIdentLike = true) :
    startsType kind = true := by
  cases kind with
  | ident => rfl
  | keyword k => cases k <;> first | rfl | cases h
  | string | number | template | punct | directive | eof => cases h

/-- Tokens that do not begin like the parameters of a function: after what could name a parameter,
nothing stands that belongs to one. -/
inductive Leads : List Kind → Prop where
  | name {kind : Kind} {ks : List Kind} (hkind : kind.isIdentLike = true)
    (hreadonly : kind ≠ .keyword .readonly)
    (hnext : ∀ next ∈ ks.head?, followsParamName next = false)
    (hasserts : kind = .ident "asserts" → ∀ next ∈ ks.head?, isPredicateParam next = false) :
    Leads (kind :: ks)
  /-- The word may also stand in front of a parameter. -/
  | readonly {ks : List Kind} (h : Leads ks) : Leads (.keyword .readonly :: ks)
  /-- Brackets could be a pattern in place of a name. -/
  | group {opening : Punct} {inner ks : List Kind}
    (hopening : opening = .lbracket ∨ opening = .lbrace) (hcloses : closesAt 1 inner = true)
    (hnext : ∀ next ∈ ks.head?, followsParamName next = false) :
    Leads (.punct opening :: (inner ++ ks))
  | other {kind : Kind} {ks : List Kind} (hstart : startsType kind = true)
    (hident : kind.isIdentLike = false)
    (hopening : kind ≠ .punct .lbracket ∧ kind ≠ .punct .lbrace)
    (hthis : kind = .keyword .this → ∀ next ∈ ks.head?, next ≠ .punct .colon) : Leads (kind :: ks)

namespace Leads

variable {ks ms : List Kind} {kind next : Kind}

/-- A group in brackets with nothing behind it. -/
theorem whole {opening : Punct} {inner : List Kind}
    (hopening : opening = .lbracket ∨ opening = .lbrace) (hcloses : closesAt 1 inner = true) :
    Leads (.punct opening :: inner) := by
  rw [← List.append_nil inner]
  exact .group hopening hcloses nofun

/-- Tokens that go on with a type do not change how it begins. -/
theorem append (h : Leads ks) (hms : ∀ next ∈ ms.head?, continuesType next = true) :
    Leads (ks ++ ms) := by
  have hhead {P : Kind → Prop} {rest : List Kind} (hrest : ∀ next ∈ rest.head?, P next)
      (hP : ∀ next, continuesType next = true → P next) : ∀ next ∈ (rest ++ ms).head?, P next := by
    cases rest with
    | nil => exact fun next hnext => hP next (hms next hnext)
    | cons => exact hrest
  induction h with
  | name hkind hreadonly hnext hasserts =>
    refine .name hkind hreadonly (hhead hnext fun _ h => ?_) fun heq =>
      hhead (hasserts heq) fun _ h => ?_
    · exact (followsParamName_of_continuesType h).1
    · exact (followsParamName_of_continuesType h).2
  | readonly _ ih => exact .readonly ih
  | group hopening hcloses hnext =>
    rw [List.cons_append, List.append_assoc]
    exact .group hopening hcloses (hhead hnext fun _ h => (followsParamName_of_continuesType h).1)
  | other hstart hident hopening hthis =>
    refine .other hstart hident hopening fun heq => hhead (hthis heq) fun next h => ?_
    rintro rfl
    cases h

/-- The first token begins a type. -/
theorem start (h : Leads ks) : ∃ kind rest, ks = kind :: rest ∧ startsType kind = true := by
  cases h with
  | name hkind => exact ⟨_, _, rfl, startsType_of_isIdentLike hkind⟩
  | readonly => exact ⟨_, _, rfl, rfl⟩
  | group hopening =>
    rcases hopening with rfl | rfl
    · exact ⟨_, _, rfl, rfl⟩
    · exact ⟨_, _, rfl, rfl⟩
  | other hstart => exact ⟨_, _, rfl, hstart⟩

/-- A word at the beginning is not followed by what comes after the name of a parameter. -/
theorem second (h : Leads ms) (hms : ms = kind :: next :: ks) (hkind : kind.isIdentLike = true) :
    followsParamName next = false := by
  cases h with
  | name _ _ hnext =>
    obtain ⟨-, rfl⟩ := List.cons.inj hms
    exact hnext next rfl
  | readonly h =>
    obtain ⟨_, _, rfl, hstart⟩ := h.start
    obtain ⟨-, heq⟩ := List.cons.inj hms
    obtain ⟨rfl, -⟩ := List.cons.inj heq
    exact followsParamName_of_startsType hstart
  | group =>
    obtain ⟨rfl, -⟩ := List.cons.inj hms
    cases hkind
  | other _ hident =>
    obtain ⟨rfl, -⟩ := List.cons.inj hms
    rw [hident] at hkind
    cases hkind

/-- After `asserts` at the beginning stands nothing that a predicate could be about. -/
theorem second_asserts (h : Leads (.ident "asserts" :: next :: ks)) :
    isPredicateParam next = false := by
  cases h with
  | name _ _ _ hasserts => exact hasserts rfl next rfl
  | other _ hident => cases hident

end Leads

end Token

/-- A reference begins with its first word, and what comes after goes on with the type. -/
theorem Token.dotted_start (name : String) :
    ∃ w ks, w ∈ (nameWords name).head? ∧ kinds (dotted name) = wordKind w :: ks ∧
      ∀ next ∈ ks.head?, continuesType next = true := by
  obtain ⟨w, ws, hwords⟩ := List.exists_cons_of_ne_nil (nameWords_ne_nil name)
  refine ⟨w, kinds (dottedRest ws), by rw [hwords]; rfl, by rw [(dotted_eq hwords).1]; rfl, ?_⟩
  cases ws with
  | nil => nofun
  | cons v ws =>
    rintro _ ⟨⟩
    rfl

/-- Type arguments, if there are any, go on with the type. -/
theorem Token.angledBy_start (parts : List (List Piece)) :
    ∀ next ∈ (kinds (angledBy parts)).head?, continuesType next = true := by
  rw [angledBy]
  split
  · rintro _ ⟨⟩
  · rintro _ ⟨⟩
    rfl

/-- A reference does not begin like the parameters of a function. -/
theorem Token.IsDottedName.leads {name : String}
    (h : IsDottedName (isReferenceHead · = true) name) : Leads (kinds (dotted name)) := by
  obtain ⟨w, ks, hw, hkinds, hks⟩ := dotted_start name
  obtain ⟨hident, -, hreadonly, -⟩ := wordKind_of_isReferenceHead (h.2 w hw)
  rw [hkinds]
  refine .name hident hreadonly (fun next hnext => ?_) fun _ next hnext => ?_
  · exact (followsParamName_of_continuesType (hks next hnext)).1
  · exact (followsParamName_of_continuesType (hks next hnext)).2

/-- The first of several types begins them all. -/
theorem Ty.leads_operands {separator : Punct} {types : List Ty} (hlength : 2 ≤ types.length)
    (htypes : ∀ u ∈ types, Leads (kinds u.pieces))
    (hseparator : continuesType (.punct separator) = true) :
    Leads (kinds (separatedBy separator (Ty.piecesList types))) := by
  match types, hlength with
  | u :: v :: rest, _ =>
    rw [Ty.piecesList_eq, List.map_cons, separatedBy, kinds_append]
    refine (htypes u (List.mem_cons_self ..)).append ?_
    rintro _ ⟨⟩
    exact hseparator

/-- A canonical type does not begin like the parameters of a function. -/
theorem Ty.leads (t : Ty) (h : t.Canonical) (hrank : 1 ≤ t.rank) : Leads (kinds t.pieces) := by
  induction t using Ty.parts_induction with
  | step t ih =>
  have hparts : ∀ u, .type u ∈ t.parts → 1 ≤ u.rank → Leads (kinds u.pieces) :=
    fun u hu => ih u hu (h.part hu)
  have hnested : ∀ u, .type u ∈ t.parts → u.Nested := fun u hu => u.balanced (h.part hu)
  have hfits := h.fits
  clear ih h
  cases hfits with
  | named hname =>
    rw [Ty.pieces, kinds_append]
    exact hname.leads.append (angledBy_start _)
  | primitive p =>
    cases p <;> first
      | exact .name rfl (by decide) (by rintro _ ⟨⟩) (by rintro ⟨⟩)
      | exact .other rfl rfl (by decide) (by rintro ⟨⟩)
  | string => exact .other rfl rfl (by simp) (by simp)
  | number =>
    rw [Ty.pieces]
    unfold numberPieces
    split
    · exact .other rfl rfl (by simp) (by simp)
    · exact .other rfl rfl (by simp) (by simp)
  | boolean value => cases value <;> exact .other rfl rfl (by simp) (by simp)
  | union hlength hranks | intersection hlength hranks =>
    rw [Ty.pieces]
    refine leads_operands hlength (fun u hu => Part.forall_map.1 hparts u hu ?_) rfl
    exact Nat.le_trans (by decide) (hranks u hu)
  | @function signature returns =>
    obtain ⟨typeParams, thisType, params⟩ := signature
    rw [Ty.pieces, Ty.piecesSignature]
    unfold angledBy
    split
    · exact .other rfl rfl (by simp) (by simp)
    · exact .other rfl rfl (by simp) (by simp)
  | @construct isAbstract =>
    rw [Ty.pieces]
    cases isAbstract with
    | true =>
      refine .name rfl (by simp) ?_ (by simp)
      rintro _ ⟨⟩
      rfl
    | false => exact .other rfl rfl (by simp) (by simp)
  | @object members hmembers =>
    have hcloses := (Ty.balanced_members hmembers hnested).closesAt_concat
      (.punct .rbrace) fun _ => rfl
    rw [Ty.pieces, kinds_token, kinds_append]
    exact .whole (.inr rfl) hcloses
  | array hrank =>
    rw [Ty.pieces, kinds_append]
    refine (Part.forall_singleton.1 hparts (by omega)).append ?_
    rintro _ ⟨⟩
    rfl
  | @tuple elements =>
    have hcloses := (Ty.balanced_elements hnested).closesAt_concat
      (.punct .rbracket) fun _ => rfl
    rw [Ty.pieces, kinds_token, kinds_append]
    exact .whole (.inl rfl) hcloses
  | typeOf => exact .other rfl rfl (by simp) (by simp)
  | keyOf hrank =>
    have htype := Part.forall_singleton.1 hparts (by omega)
    obtain ⟨kind, rest, hkinds, hstart⟩ := htype.start
    rw [Ty.pieces, kinds_token, hkinds]
    refine .name rfl (by simp) ?_ (by simp)
    rintro _ ⟨⟩
    exact followsParamName_of_startsType hstart
  | readonly hrank => exact .readonly (Part.forall_singleton.1 hparts (by omega))
  | uniqueSymbol =>
    refine .name rfl (by simp) ?_ (by simp)
    rintro _ ⟨⟩
    rfl
  | index hrank =>
    rw [Ty.pieces, kinds_append]
    refine ((forall_parts_index.1 hparts).1 (by omega)).append ?_
    rintro _ ⟨⟩
    rfl
  | conditional hcheck =>
    rw [Ty.pieces, kinds_append]
    refine ((forall_parts_conditional.1 hparts).1 (by omega)).append ?_
    rintro _ ⟨⟩
    rfl
  | mapped =>
    have hcloses := (Ty.balanced_mapped hnested).closesAt_concat
      (.punct .rbrace) fun _ => rfl
    rw [Ty.pieces_mapped, kinds_token, kinds_append]
    exact .whole (.inr rfl) hcloses
  | @infer name =>
    refine .name rfl (by simp) ?_ (by simp)
    rintro _ ⟨⟩
    rcases wordKind_cases name with hw | ⟨k, hw, -⟩
    · rw [hw]
      rfl
    · rw [hw]
      rfl
  | template => exact .other rfl rfl (by simp) (by simp)
  | @imported _ _ _ isTypeof =>
    cases isTypeof <;> exact .other rfl rfl (by simp) (by simp)
  | predicate => cases hrank
  | paren => exact .other rfl rfl (by simp) (by simp)
  | this => exact .other rfl rfl (by simp) (by simp)

end DeclLayer
