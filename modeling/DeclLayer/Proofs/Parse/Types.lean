import DeclLayer.Proofs.Parse.Primary
import DeclLayer.Proofs.Render.TypeLength

/-!
# Reading types

Every canonical type is read back from its pieces (`Ty.read_type`). The proof follows the levels of
binding. What is read at one level is read at every looser one, as long as no operator of that level
follows (`Ty.Levels.of_spine` and the lemmas after it); a type with suffixes is read along its spine
(`Ty.Spine`). The types nested in a type are read with one level less (`typeAt_upto`).
-/

namespace DeclLayer

open Token DeclLayer.Parser Literal

/-! ## Levels -/

/-- A type is read together with the suffixes after it. -/
def Ty.Spine (ty : Parser Ty) (t : Ty) : Prop :=
  ∀ docs qs b k, t.Before 5 (kindAt (qs ++ k) 0) →
    (∀ docs n, size (qs ++ k) < n → Reads docs (suffixes ty t n) qs b k) →
    Reads docs (suffixedType ty) (t.pieces ++ qs) b k

/-- A type is read at its own level and at every looser one. -/
structure Ty.Levels (ty : Parser Ty) (t : Ty) : Prop where
  spine : 5 ≤ t.rank → t.Spine ty
  operator : 4 ≤ t.rank → ∀ docs k n, t.Before 4 (kindAt k 0) → size (t.pieces ++ k) < n →
    Reads docs (operatorTypeFor ty n) t.pieces t k
  intersection : 3 ≤ t.rank → ∀ docs k, t.Before 3 (kindAt k 0) →
    Reads docs (intersectionType ty) t.pieces t k
  union : 2 ≤ t.rank → ∀ docs k, t.Before 2 (kindAt k 0) → Reads docs (unionType ty) t.pieces t k
  type : 1 ≤ t.rank → ∀ docs k, t.Before 1 (kindAt k 0) → Reads docs (typeWith ty) t.pieces t k

/-- A parser reads all types with fewer tokens than a bound. -/
def Parser.Upto (ty : Parser Ty) (bound : Nat) : Prop :=
  ∀ t : Ty, t.Canonical → size t.pieces < bound → t.Read ty

namespace Ty

variable {ty : Parser Ty} {t : Ty} {docs : Docs} {k : List Piece}

/-- A type that ends at a level ends at every tighter one. -/
theorem Before.mono {level level' : Nat} {next : Kind} (h : t.Before level next)
    (hle : level ≤ level') : t.Before level' next :=
  ⟨Nat.lt_of_lt_of_le h.1 hle, h.2⟩

/-! ### From tight to loose -/

/-- A mark may stand in front of the first of several parts, but none does. -/
theorem reads_combined {separator : Punct} {element : Parser Ty} {combine : List Ty → Ty}
    {ts : List Ty} {ps : List Piece} (hne : ts ≠ [])
    (hps : ps = separatedBy separator (piecesList ts))
    (hstart : kindAt (ps ++ k) 0 ≠ .punct separator)
    (hk : kindAt k 0 ≠ .punct separator)
    (hinit : ∀ t ∈ ts.dropLast, ∀ docs k, Reads docs element t.pieces t (mark separator :: k))
    (hlast : ∀ t ∈ ts.getLast?, ∀ docs, Reads docs element t.pieces t k) :
    Reads docs (do
      discard (acceptMark separator)
      return combined combine (← separated separator element)) ps (combined combine ts) k := by
  subst hps
  refine Reads.bind_nil (Reads.discard (Reads.accept_other hstart)) ?_
  rw [piecesList_eq]
  exact (Reads.separated hne hk hinit hlast).map

/-- What reads as a union reads as a type where no condition follows. -/
theorem reads_typeWith (hk : binding (kindAt k 0) < 1)
    (h : Reads docs (unionType ty) t.pieces t k) : Reads docs (typeWith ty) t.pieces t k :=
  h.bind_end (Reads.bind_nil (Reads.accept_other (ne_of_binding hk (Nat.le_refl 1))) (Reads.pure t))

/-- What reads as an intersection reads as a union where no bar stands in front or behind. -/
theorem reads_unionType (hleads : Leads (kinds t.pieces)) (hk : binding (kindAt k 0) < 2)
    (h : ∀ docs, Reads docs (intersectionType ty) t.pieces t k) :
    Reads docs (unionType ty) t.pieces t k := by
  obtain ⟨kind, ks, hkinds, hstart⟩ := hleads.start
  refine reads_combined (List.cons_ne_nil t []) (List.append_nil _).symm ?_
    (ne_of_binding hk (Nat.le_refl 2)) nofun ?_
  · rw [kindAt_head hkinds]
    rintro rfl
    cases hstart
  · rintro _ ⟨⟩
    exact h

/-- What reads with its operators reads as an intersection where no ampersand stands in front or
behind. -/
theorem reads_intersectionType (hleads : Leads (kinds t.pieces)) (hk : binding (kindAt k 0) < 3)
    (h : ∀ docs n, size (t.pieces ++ k) < n → Reads docs (operatorTypeFor ty n) t.pieces t k) :
    Reads docs (intersectionType ty) t.pieces t k := by
  obtain ⟨kind, ks, hkinds, hstart⟩ := hleads.start
  refine reads_combined (List.cons_ne_nil t []) (List.append_nil _).symm ?_
    (ne_of_binding hk (Nat.le_refl 3)) nofun ?_
  · rw [kindAt_head hkinds]
    rintro rfl
    cases hstart
  · rintro _ ⟨⟩ docs
    exact Reads.bind_nil Reads.turns (h docs _ (Nat.lt_succ_self _))

/-- Where the tokens of a type do not begin with an operator. -/
theorem reads_operatorType {kind : Kind} {ks : List Kind} (hkinds : kinds t.pieces = kind :: ks)
    (hkind : kind ≠ .keyword .keyof ∧ kind ≠ .keyword .readonly ∧ kind ≠ .keyword .infer)
    (hunique : kind = .ident "unique" → kindAt (t.pieces ++ k) 1 ≠ .keyword .symbol)
    (h : Reads docs (suffixedType ty) t.pieces t k) (n : Nat) :
    Reads docs (operatorTypeFor ty (n + 1)) t.pieces t k := by
  refine Reads.bind_nil Reads.peek ?_
  rw [kindAt_head hkinds]
  split
  · exact absurd rfl hkind.1
  · exact absurd rfl hkind.2.1
  · exact absurd rfl hkind.2.2
  · next name =>
    refine Reads.bind_nil (Reads.peekAt 1) ?_
    rw [if_neg]
    · exact h
    · intro heq
      obtain ⟨hname, hsymbol⟩ := Bool.and_eq_true_iff.1 heq
      exact hunique (congrArg Kind.ident (beq_iff_eq.1 hname)) (beq_iff_eq.1 hsymbol)
  · exact h

/-- A type is read without a suffix if none follows. -/
theorem reads_suffixedType (hk : t.Before 4 (kindAt k 0)) (h : t.Spine ty) :
    Reads docs (suffixedType ty) t.pieces t k := by
  have hspine := h docs [] t k (hk.mono (by decide)) fun docs n hn => by
    obtain ⟨n, rfl⟩ := Nat.exists_eq_succ_of_ne_zero (Nat.ne_of_gt (Nat.zero_lt_of_lt hn))
    exact Reads.bind_nil (Reads.accept_other (ne_of_binding hk.1 (Nat.le_refl 4))) (Reads.pure t)
  rwa [List.append_nil] at hspine

/-- A type that no operator belongs to does not begin with one. -/
theorem operator_start (t : Ty) (h : t.Canonical) (hrank : 5 ≤ t.rank) :
    ∃ kind ks, kinds t.pieces = kind :: ks ∧
      (kind ≠ .keyword .keyof ∧ kind ≠ .keyword .readonly ∧ kind ≠ .keyword .infer) ∧
      (kind = .ident "unique" → ∀ next ∈ ks.head?, continuesType next = true) := by
  induction t using Ty.parts_induction with
  | step t ih =>
  have hfits := h.fits
  have hsuffix {u : Ty} (hu : .type u ∈ t.parts) (hrank : 5 ≤ u.rank) {ps : List Piece}
      (hps : ∀ next ∈ (kinds ps).head?, continuesType next = true) :
      ∃ kind ks, kinds (u.pieces ++ ps) = kind :: ks ∧
        (kind ≠ .keyword .keyof ∧ kind ≠ .keyword .readonly ∧ kind ≠ .keyword .infer) ∧
        (kind = .ident "unique" → ∀ next ∈ ks.head?, continuesType next = true) := by
    obtain ⟨kind, ks, hkinds, hkind, hunique⟩ := ih u hu (h.part hu) hrank
    refine ⟨kind, ks ++ kinds ps, by rw [kinds_append, hkinds, List.cons_append], hkind, ?_⟩
    intro heq
    cases ks with
    | nil => exact hps
    | cons => exact hunique heq
  cases hfits with
  | @named name args hname =>
    obtain ⟨w, ks, hw, hkinds, hks⟩ := dotted_start name
    obtain ⟨-, hoperator⟩ := wordKind_of_isReferenceHead (hname.2 w hw)
    refine ⟨wordKind w, ks ++ kinds (angledBy (piecesList args)), ?_, hoperator, fun _ => ?_⟩
    · rw [Ty.pieces, kinds_append, hkinds, List.cons_append]
    · cases ks with
      | nil => exact angledBy_start _
      | cons => exact hks
  | primitive p => cases p <;> exact ⟨_, _, rfl, by decide, by rintro ⟨⟩⟩
  | string => exact ⟨_, _, rfl, by simp, by simp⟩
  | number hnumber =>
    rw [Ty.pieces]
    rcases hnumber.pieces_eq with ⟨-, hpieces⟩ | ⟨digits, -, -, hpieces⟩
    · exact hpieces ▸ ⟨_, _, rfl, by simp, by simp⟩
    · exact hpieces ▸ ⟨_, _, rfl, by simp, by simp⟩
  | boolean value => cases value <;> exact ⟨_, _, rfl, by simp, by simp⟩
  | @function signature returns =>
    obtain ⟨typeParams, thisType, params⟩ := signature
    rw [Ty.pieces, Ty.piecesSignature]
    cases typeParams with
    | nil => exact ⟨_, _, rfl, by simp, by simp⟩
    | cons => exact ⟨_, _, rfl, by simp, by simp⟩
  | @construct isAbstract =>
    rw [Ty.pieces]
    cases isAbstract <;> exact ⟨_, _, rfl, by simp, by simp⟩
  | array hrank' =>
    rw [Ty.pieces]
    refine hsuffix (List.mem_singleton.2 rfl) hrank' ?_
    rintro _ ⟨⟩
    rfl
  | index hrank' =>
    rw [Ty.pieces]
    refine hsuffix (List.mem_cons_self ..) hrank' ?_
    rintro _ ⟨⟩
    rfl
  | @imported module qualifier args isTypeof =>
    cases qualifier <;> cases isTypeof <;> rw [Ty.pieces] <;>
      exact ⟨_, _, rfl, by simp, by simp⟩
  | object | tuple | typeOf | mapped | template | paren | this =>
    exact ⟨_, _, rfl, by simp, by simp⟩
  | union | intersection | conditional | predicate | keyOf | readonly | uniqueSymbol | infer =>
    exact absurd hrank (by simp [Ty.rank])

namespace Levels

/-- What is read as an intersection is read as a union and as a type. -/
theorem of_intersection (h : t.Canonical) (hrank : 3 ≤ t.rank) (hspine : 5 ≤ t.rank → t.Spine ty)
    (hoperator : 4 ≤ t.rank → ∀ docs k n, t.Before 4 (kindAt k 0) → size (t.pieces ++ k) < n →
      Reads docs (operatorTypeFor ty n) t.pieces t k)
    (hintersection : ∀ docs k, t.Before 3 (kindAt k 0) →
      Reads docs (intersectionType ty) t.pieces t k) : t.Levels ty := by
  have hleads := t.leads h (by omega)
  have hunion : ∀ docs k, t.Before 2 (kindAt k 0) → Reads docs (unionType ty) t.pieces t k := by
    intro docs k hk
    exact reads_unionType hleads hk.1 fun docs => hintersection docs k (hk.mono (by decide))
  refine ⟨hspine, hoperator, fun _ => hintersection, fun _ => hunion, fun _ docs k hk => ?_⟩
  exact reads_typeWith hk.1 (hunion docs k (hk.mono (by decide)))

/-- What is read with the operators in front of it is read as an intersection. -/
theorem of_operator (h : t.Canonical) (hrank : 4 ≤ t.rank) (hspine : 5 ≤ t.rank → t.Spine ty)
    (hoperator : ∀ docs k n, t.Before 4 (kindAt k 0) → size (t.pieces ++ k) < n →
      Reads docs (operatorTypeFor ty n) t.pieces t k) : t.Levels ty := by
  have hleads := t.leads h (by omega)
  refine of_intersection h (by omega) hspine (fun _ => hoperator) fun docs k hk => ?_
  refine reads_intersectionType hleads hk.1 fun docs n hn => ?_
  exact hoperator docs k n (hk.mono (by decide)) hn

/-- A type that begins with an operator takes one turn for it. -/
theorem of_leadingOperator (h : t.Canonical) (hrank : t.rank = 4)
    (hoperator : ∀ docs k n, t.Before 4 (kindAt k 0) → size (t.pieces ++ k) < n + 1 →
      Reads docs (operatorTypeFor ty (n + 1)) t.pieces t k) : t.Levels ty := by
  refine of_operator h (by omega) (by omega) fun docs k n hk hn => ?_
  obtain ⟨n, rfl⟩ := Nat.exists_eq_succ_of_ne_zero (Nat.ne_of_gt (Nat.zero_lt_of_lt hn))
  exact hoperator docs k n hk hn

/-- What is read with its suffixes is read as a type that no operator stands in front of. -/
theorem of_spine (h : t.Canonical) (hrank : 5 ≤ t.rank) (hspine : t.Spine ty) : t.Levels ty := by
  obtain ⟨kind, ks, hkinds, hkind, hunique⟩ := t.operator_start h hrank
  refine of_operator h (by omega) (fun _ => hspine) fun docs k n hk hn => ?_
  obtain ⟨n, rfl⟩ := Nat.exists_eq_succ_of_ne_zero (Nat.ne_of_gt (Nat.zero_lt_of_lt hn))
  refine reads_operatorType hkinds hkind (fun heq => ?_) (reads_suffixedType hk hspine) n
  cases ks with
  | nil =>
    rw [kindAt_single hkinds]
    exact ne_of_binding hk.1 (by decide)
  | cons next ks =>
    rw [kindAt_second hkinds]
    rintro rfl
    cases hunique heq _ rfl

/-- What is read as a primary type is read with the suffixes after it. -/
theorem of_primary (h : t.Canonical) (hrank : 5 ≤ t.rank)
    (hprimary : ∀ docs k, t.Before 5 (kindAt k 0) → Reads docs (primaryType ty) t.pieces t k) :
    t.Levels ty := by
  refine of_spine h hrank fun docs qs b k hk hsuffixes => ?_
  exact (hprimary docs (qs ++ k) hk).bind
    (Reads.bind_nil Reads.turns (hsuffixes _ _ (Nat.lt_succ_self _)))

end Levels

/-! ### Suffixes and operators -/

/-- An array is read with the suffixes after it if its element type is. -/
theorem spine_array {t : Ty} (h : t.Spine ty) (hopens : t.opens = false) :
    (Ty.array t).Spine ty := by
  intro docs qs b k hk hsuffixes
  rw [Ty.pieces, List.append_assoc]
  refine h docs _ b k ⟨Nat.lt_succ_self 4, fun ho => by rw [hopens] at ho; cases ho⟩
    fun docs n hn => ?_
  obtain ⟨n, rfl⟩ := Nat.exists_eq_succ_of_ne_zero (Nat.ne_of_gt (Nat.zero_lt_of_lt hn))
  refine Reads.bind_token Reads.accept (Reads.bind_token Reads.accept (hsuffixes _ n ?_))
  simp only [List.cons_append, List.nil_append, size_token] at hn
  omega

/-- An indexed type is read with the suffixes after it if its target is. -/
theorem spine_index {t key : Ty} (h : t.Spine ty) (hopens : t.opens = false)
    (hkey : key.Read ty) (hrank : 1 ≤ key.rank) : (Ty.index t key).Spine ty := by
  intro docs qs b k hk hsuffixes
  rw [Ty.pieces, List.append_assoc]
  refine h docs _ b k ⟨Nat.lt_succ_self 4, fun ho => by rw [hopens] at ho; cases ho⟩
    fun docs n hn => ?_
  obtain ⟨n, rfl⟩ := Nat.exists_eq_succ_of_ne_zero (Nat.ne_of_gt (Nat.zero_lt_of_lt hn))
  obtain ⟨kind, ks, hkinds, hstart⟩ := (key.leads hkey.canonical hrank).start
  rw [List.cons_append, List.append_assoc]
  refine Reads.bind_token Reads.accept (Reads.bind_nil (Reads.accept_other ?_) ?_)
  · rw [List.append_assoc, kindAt_head hkinds]
    rintro rfl
    cases hstart
  · refine Reads.bind (hkey.ends hrank rfl) (Reads.bind_token Reads.expect (hsuffixes _ n ?_))
    simp only [List.cons_append, List.nil_append, List.append_assoc, size_token,
      size_append] at hn ⊢
    omega

/-- The last of some types decides whether they end with an open part. -/
theorem lastOpens_eq {ts : List Ty} {u : Ty} (hu : u ∈ ts.getLast?) : lastOpens ts = u.opens := by
  induction ts with
  | nil => cases hu
  | cons t ts ih =>
    cases ts with
    | nil =>
      cases hu
      rfl
    | cons v vs => exact ih hu

/-- Types with a mark between neighbours. All but the last one end in front of the mark. -/
theorem reads_types {separator : Punct} {element : Parser Ty} {combine : List Ty → Ty} {level : Nat}
    {ts : List Ty} (hlength : 2 ≤ ts.length)
    (hleads : Leads (kinds (separatedBy separator (piecesList ts))))
    (hlevel : binding (.punct separator) = level) (hmark : startsType (.punct separator) = false)
    (hopens : ∀ t ∈ ts.dropLast, t.opens = false)
    (h : ∀ t ∈ ts, ∀ docs k, t.Before (level + 1) (kindAt k 0) → Reads docs element t.pieces t k)
    (hk : binding (kindAt k 0) < level)
    (hend : lastOpens ts = true → binding (kindAt k 0) = 0 ∧ kindAt k 0 ≠ .keyword .asKw) :
    Reads docs (do
      discard (acceptMark separator)
      return combined combine (← separated separator element))
      (separatedBy separator (piecesList ts)) (combine ts) k := by
  have hne : ts ≠ [] := by
    rintro rfl
    cases hlength
  have hcombined : combined combine ts = combine ts := by
    match ts, hlength with
    | _ :: _ :: _, _ => rfl
  obtain ⟨kind, ks, hkinds, hstart⟩ := hleads.start
  rw [← hcombined]
  refine reads_combined hne rfl ?_ (ne_of_binding hk (Nat.le_of_eq hlevel.symm))
    (fun t ht docs k => ?_) fun t ht docs => ?_
  · rw [kindAt_head hkinds]
    rintro rfl
    rw [hmark] at hstart
    cases hstart
  · have hclosed := hopens t ht
    refine h t (List.dropLast_subset ts ht) docs _ ⟨?_, fun ho => by rw [hclosed] at ho; cases ho⟩
    exact Nat.lt_succ_of_le (Nat.le_of_eq hlevel)
  · refine h t (List.mem_of_getLast? ht) docs k ⟨Nat.lt_succ_of_lt hk, ?_⟩
    rwa [lastOpens_eq ht] at hend

/-- A union is read at its own level and at every looser one. -/
theorem levels_union {types : List Ty} (h : (Ty.union types).Canonical) (hlength : 2 ≤ types.length)
    (hranks : ∀ u ∈ types, 3 ≤ u.rank) (hopens : ∀ u ∈ types.dropLast, u.opens = false)
    (htypes : ∀ u ∈ types, u.Levels ty) : (Ty.union types).Levels ty := by
  have hleads := (Ty.union types).leads h (by simp [Ty.rank])
  have hunion : ∀ docs k, (Ty.union types).Before 2 (kindAt k 0) →
      Reads docs (unionType ty) (Ty.union types).pieces (.union types) k := by
    intro docs k hk
    refine reads_types hlength hleads rfl rfl hopens (fun u hu docs k hu' => ?_) hk.1 hk.2
    exact (htypes u hu).intersection (hranks u hu) docs k hu'
  refine ⟨by simp [Ty.rank], by simp [Ty.rank], by simp [Ty.rank], fun _ => hunion,
    fun _ docs k hk => ?_⟩
  exact reads_typeWith hk.1 (hunion docs k (hk.mono (by decide)))

/-- An intersection is read at its own level and at every looser one. -/
theorem levels_intersection {types : List Ty} (h : (Ty.intersection types).Canonical)
    (hlength : 2 ≤ types.length) (hranks : ∀ u ∈ types, 4 ≤ u.rank)
    (hopens : ∀ u ∈ types.dropLast, u.opens = false) (htypes : ∀ u ∈ types, u.Levels ty) :
    (Ty.intersection types).Levels ty := by
  have hleads := (Ty.intersection types).leads h (by simp [Ty.rank])
  refine .of_intersection h (Nat.le_refl 3) (by simp [Ty.rank]) (by simp [Ty.rank])
    fun docs k hk => ?_
  refine reads_types hlength hleads rfl rfl hopens (fun u hu docs k hu' => ?_) hk.1 hk.2
  exact Reads.bind_nil Reads.turns ((htypes u hu).operator (hranks u hu)
    docs k _ hu' (Nat.lt_succ_self _))

/-- A conditional type is read as nothing but a type. -/
theorem levels_conditional {check bound whenTrue whenFalse : Ty} (hcheck : check.Levels ty)
    (hcheckRank : 2 ≤ check.rank) (hopens : check.opens = false) (hbound : bound.Levels ty)
    (hboundRank : 2 ≤ bound.rank) (htrue : whenTrue.Read ty) (htrueRank : 1 ≤ whenTrue.rank)
    (hfalse : whenFalse.Read ty) (hfalseRank : 1 ≤ whenFalse.rank) :
    (Ty.conditional check bound whenTrue whenFalse).Levels ty := by
  have hchecks := hcheck.union hcheckRank
  have hbounds := hbound.union hboundRank
  refine ⟨by simp [Ty.rank], by simp [Ty.rank], by simp [Ty.rank], by simp [Ty.rank],
    fun _ docs k hk => ?_⟩
  rw [Ty.pieces]
  refine Reads.bind (hchecks docs _ ⟨Nat.lt_succ_self 1, fun ho => ?_⟩) ?_
  · rw [hopens] at ho
    cases ho
  refine Reads.bind_token Reads.accept (Reads.bind
    (hbounds [] _ (before_of_endsType (by decide) rfl)) (Reads.bind_token Reads.expect ?_))
  refine Reads.bind (htrue.ends htrueRank rfl) (Reads.bind_token Reads.expect ?_)
  exact (hfalse.ends hfalseRank (hk.endsType rfl)).map

/-! ## All types -/

/-- A type is read at its own level if the types with fewer tokens are read. -/
theorem levels {bound : Nat} (hty : Upto ty bound) (t : Ty) (h : t.Canonical)
    (hsize : size t.pieces ≤ bound) : t.Levels ty := by
  induction t using Ty.parts_induction with
  | step t ih =>
  have hfits := h.fits
  have hread : ∀ u, .type u ∈ t.parts → u.Read ty := fun u hu =>
    hty u (h.part hu) (Nat.lt_of_lt_of_le (size_parts_lt hfits u hu) hsize)
  have hparts : ∀ u, .type u ∈ t.parts → u.Levels ty := fun u hu =>
    ih u hu (h.part hu) (Nat.le_trans (Nat.le_of_lt (size_parts_lt hfits u hu)) hsize)
  clear ih
  cases hfits with
  | named hname hargs =>
    refine .of_primary h (Nat.le_refl 5) fun docs k hk => ?_
    refine Reads.primaryType_named hname (fun u hu => ?_) hk.1
    exact ⟨Part.forall_map.1 hread u hu, hargs u hu⟩
  | primitive p => exact .of_primary h (Nat.le_refl 5) fun _ _ _ => Reads.primaryType_primitive p
  | string value =>
    exact .of_primary h (Nat.le_refl 5) fun docs k _ =>
      Reads.bind_nil Reads.peek (Reads.skip.bind (Reads.pure (Ty.string value)))
  | number hnumber =>
    exact .of_primary h (Nat.le_refl 5) fun _ _ _ => Reads.primaryType_number hnumber
  | boolean value =>
    exact .of_primary h (Nat.le_refl 5) fun _ _ _ => Reads.primaryType_boolean value
  | union hlength hranks hopens =>
    exact levels_union h hlength hranks hopens (Part.forall_map.1 hparts)
  | intersection hlength hranks hopens =>
    exact levels_intersection h hlength hranks hopens (Part.forall_map.1 hparts)
  | function hsignature hreturns =>
    obtain ⟨hs, hreturned⟩ := forall_parts_function.1 hread
    refine .of_primary h (Nat.le_refl 5) fun docs k hk => ?_
    exact Reads.primaryType_function hsignature hs hreturns hreturned (hk.endsType rfl)
  | construct hsignature hreturns =>
    obtain ⟨hs, hreturned⟩ := forall_parts_construct.1 hread
    refine .of_primary h (Nat.le_refl 5) fun docs k hk => ?_
    exact Reads.primaryType_construct hsignature hs hreturns hreturned (hk.endsType rfl)
  | object hmembers hhead =>
    exact .of_primary h (Nat.le_refl 5) fun docs k _ =>
      Reads.primaryType_object hmembers (Part.forall_flatMap.1 hread) hhead
  | array hrank hopens =>
    have hspine := (Part.forall_singleton.1 hparts).spine hrank
    exact .of_spine h (Nat.le_refl 5) (spine_array hspine hopens)
  | tuple helements =>
    exact .of_primary h (Nat.le_refl 5) fun docs k _ =>
      Reads.primaryType_tuple helements (Part.forall_map.1 hread)
  | typeOf hname =>
    exact .of_primary h (Nat.le_refl 5) fun docs k hk => Reads.primaryType_typeOf hname hk.1
  | keyOf hrank | readonly hrank =>
    have htype := (Part.forall_singleton.1 hparts).operator hrank
    refine .of_leadingOperator h rfl fun docs k n hk hn => ?_
    exact Reads.bind_nil Reads.peek (Reads.bind_token Reads.skip
      (htype [] k n hk (Nat.lt_of_succ_lt_succ hn)).map)
  | uniqueSymbol =>
    refine .of_leadingOperator h rfl fun docs k n hk hn => ?_
    exact Reads.bind_nil Reads.peek (Reads.bind_nil (Reads.peekAt 1) (Reads.bind_token Reads.skip
      (Reads.skip.bind (Reads.pure Ty.uniqueSymbol))))
  | index hrank hopens hkey =>
    have hspine := (forall_parts_index.1 hparts).1.spine hrank
    exact .of_spine h (Nat.le_refl 5)
      (spine_index hspine hopens (forall_parts_index.1 hread).2 hkey)
  | conditional hcheck hopens hbound htrue hfalse =>
    obtain ⟨hchecked, hbounded, -, -⟩ := forall_parts_conditional.1 hparts
    obtain ⟨-, -, htrues, hfalses⟩ := forall_parts_conditional.1 hread
    exact levels_conditional hchecked hcheck hopens hbounded hbound htrues htrue hfalses hfalse
  | mapped hkey hkeys hopens hname hvalue =>
    obtain ⟨hkeysRead, hnameRead, hvalueRead⟩ := forall_parts_mapped.1 hread
    exact .of_primary h (Nat.le_refl 5) fun docs k _ => Reads.primaryType_mapped hkey
      ⟨hkeysRead, hkeys⟩ hopens (fun t ht => ⟨hnameRead t ht, hname t ht⟩) ⟨hvalueRead, hvalue⟩
  | infer hname =>
    refine .of_leadingOperator h rfl fun docs k n hk hn => ?_
    exact Reads.bind_nil Reads.peek (Reads.bind_token Reads.skip
      (Reads.identifier (Bool.and_eq_true_iff.1 hname).2).map)
  | @template raw _ =>
    exact .of_primary h (Nat.le_refl 5) fun docs k _ =>
      Reads.bind_nil Reads.peek (Reads.skip.bind (Reads.pure (Ty.template raw)))
  | @imported _ _ _ isTypeof _ hargs =>
    refine .of_primary h (Nat.le_refl 5) fun docs k hk => ?_
    refine Reads.primaryType_imported isTypeof (fun u hu => ?_) hk.1
    exact ⟨Part.forall_map.1 hread u hu, hargs u hu⟩
  | predicate =>
    exact ⟨by simp [Ty.rank], by simp [Ty.rank], by simp [Ty.rank], by simp [Ty.rank],
      by simp [Ty.rank]⟩
  | paren hrank =>
    exact .of_primary h (Nat.le_refl 5) fun docs k hk =>
      Reads.primaryType_paren (Part.forall_singleton.1 hread) hrank hk.1
  | this =>
    exact .of_primary h (Nat.le_refl 5) fun docs k _ =>
      Reads.bind_nil Reads.peek (Reads.skip.bind (Reads.pure Ty.this))

end Ty

/-! ### The knot -/

namespace Parser

variable {ty : Parser Ty} {docs : Docs} {k : List Piece}

/-- A parser that reads types reads them in return position as well, predicates included. -/
theorem upto_of_reads {bound : Nat}
    (h : ∀ t : Ty, t.Canonical → 1 ≤ t.rank → size t.pieces < bound →
      ∀ docs k, t.Before 1 (kindAt k 0) → Reads docs ty t.pieces t k) : Upto ty bound := by
  -- Only a predicate is not read as a type.
  have hread {t : Ty} (hcanonical : t.Canonical) (hrank : 1 ≤ t.rank)
      (hsize : size t.pieces < bound) : t.Read ty := by
    refine ⟨hcanonical, fun _ => h t hcanonical hrank hsize, fun hreturn docs k hk => ?_⟩
    exact Reads.returnType hreturn hrank hcanonical
      (h t hcanonical hrank hsize docs k (Ty.before_of_endsType (Nat.le_refl 1) hk)) hk
  intro t hcanonical hsize
  by_cases hrank : 1 ≤ t.rank
  · exact hread hcanonical hrank hsize
  · have hfits := hcanonical.fits
    refine ⟨hcanonical, fun hone => absurd hone hrank, fun _ docs k hk => ?_⟩
    cases hfits with
    | @predicate asserts param type hword hparam htype hranks =>
      refine Reads.returnType_predicate hparam htype (fun u hu => ?_) hk
      have hpart : Part.type u ∈ (Ty.predicate asserts param type).parts :=
        List.mem_map_of_mem (Option.mem_toList.2 hu)
      refine ⟨hread (hcanonical.part hpart) (hranks u hu) ?_, hranks u hu⟩
      exact Nat.lt_trans (Ty.size_parts_lt hcanonical.fits _ hpart) hsize
    | _ => exact absurd (by simp [Ty.rank]) hrank

/-- With enough levels, all types are read. -/
theorem typeAt_upto (n : Nat) : Upto (typeAt n) n := by
  induction n with
  | zero => exact fun t _ hsize => absurd hsize (Nat.not_lt_zero _)
  | succ n ih =>
    refine upto_of_reads fun t hcanonical hrank hsize => ?_
    exact (t.levels ih hcanonical (Nat.le_of_lt_succ hsize)).type hrank

end Parser

/-- A canonical type is read back from its pieces. -/
theorem Ty.read_type (t : Ty) (h : t.Canonical) : t.Read Parser.type := by
  have hupto : Upto Parser.type (size t.pieces + 1) := by
    refine upto_of_reads fun u hu hrank _ docs k hk => ?_
    have hsize : size u.pieces < size (u.pieces ++ k) + 1 := by
      rw [size_append]
      omega
    exact Reads.bind_nil Reads.turns ((typeAt_upto _ u hu hsize).reads hrank docs k hk)
  exact hupto t h (Nat.lt_succ_self _)

end DeclLayer
