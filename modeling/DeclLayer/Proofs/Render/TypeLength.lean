import DeclLayer.Proofs.Render.Canonical

/-!
# Parts of a type have fewer tokens

A type nested in another one is read with one level less, and there are as many levels as tokens.
That is enough, since each part of a canonical type has fewer tokens than the type
(`Ty.size_parts_lt`).
-/

namespace DeclLayer

open Token

/-- The number of tokens in some pieces. -/
abbrev Token.size (ps : List Piece) : Nat := (kinds ps).length

section

variable {ps qs : List Piece} {parts : List (List Piece)} {separator : Punct} {kind : Kind}

@[simp] theorem Token.size_append : size (ps ++ qs) = size ps + size qs := by
  rw [size, kinds_append, List.length_append]

@[simp] theorem Token.size_token : size (.token kind :: ps) = size ps + 1 := rfl

/-- No part of a list has more tokens than the list. -/
theorem Token.size_le_separatedBy (separator : Punct) (h : ps ∈ parts) :
    size ps ≤ size (separatedBy separator parts) := by
  cases parts with
  | nil => cases h
  | cons qs parts =>
    rw [separatedBy, size_append]
    rcases List.mem_cons.1 h with rfl | h
    · exact Nat.le_add_right _ _
    · obtain ⟨before, after, rfl⟩ := List.append_of_mem h
      simp only [List.flatMap_append, List.flatMap_cons, size_append, size_token, List.cons_append]
      omega

/-- Of two or more parts, none has all the tokens. -/
theorem Token.size_lt_separatedBy (hlength : 2 ≤ parts.length) (h : ps ∈ parts) :
    size ps < size (separatedBy separator parts) := by
  match parts, hlength with
  | qs :: rs :: parts, _ =>
    simp only [separatedBy, List.flatMap_cons, List.cons_append, size_append, size_token]
    rcases List.mem_cons.1 h with rfl | h
    · omega
    · rcases List.mem_cons.1 h with rfl | h
      · omega
      · obtain ⟨before, after, rfl⟩ := List.append_of_mem h
        simp only [List.flatMap_append, List.flatMap_cons, size_append, size_token,
          List.cons_append]
        omega

/-- A part of a list in angle brackets has fewer tokens than the list with its brackets. -/
theorem Token.size_lt_angledBy (h : ps ∈ parts) : size ps < size (angledBy parts) := by
  have hle := size_le_separatedBy .comma h
  have hne : parts.isEmpty = false := by
    cases parts with
    | nil => cases h
    | cons => rfl
  rw [angledBy, hne, if_neg Bool.false_ne_true, size_token, size_append]
  omega

/-- A type has fewer tokens than it has with a token in front of it. -/
theorem Ty.size_lt_after (kind : Kind) {t : Option Ty} :
    ∀ u ∈ t, size u.pieces < size (Ty.piecesAfter kind t) := by
  rintro u rfl
  exact Nat.lt_succ_self _

/-- The pieces of each type of a list are among those of the list. -/
theorem Ty.mem_piecesList {u : Ty} {ts : List Ty} (h : u ∈ ts) : u.pieces ∈ Ty.piecesList ts := by
  rw [Ty.piecesList_eq]
  exact List.mem_map_of_mem h

/-- The types in a type parameter have fewer tokens than it. -/
theorem TypeParam.size_parts_lt (p : TypeParam Ty) :
    ∀ u, .type u ∈ p.parts → size u.pieces < size p.pieces := by
  rw [TypeParam.pieces, size_token, size_append]
  refine TypeParam.forall_parts.2 ⟨fun u hu => ?_, fun u hu => ?_⟩
  · have hlt := Ty.size_lt_after (.keyword .extendsKw) u hu
    omega
  · have hlt := Ty.size_lt_after (.punct .eq) u hu
    omega

/-- The type of a parameter has fewer tokens than the parameter. -/
theorem Param.size_parts_lt (p : Param Ty) :
    ∀ u, .type u ∈ p.parts → size u.pieces < size p.pieces := by
  refine Param.forall_parts.2 fun u hu => ?_
  have hlt := Ty.size_lt_after (.punct .colon) u hu
  have hpieces : p.pieces = piecesIf p.rest [mark .ellipsis] ++ ([Token.name p.name] ++
      (piecesIf p.optional [mark .question] ++ Ty.piecesAfter (.punct .colon) p.type)) := rfl
  rw [hpieces, size_append, size_append, size_append]
  omega

/-- The types in a signature have fewer tokens than it. -/
theorem Signature.size_parts_lt (s : Signature Ty) :
    ∀ u, .type u ∈ s.parts → size u.pieces < size (Ty.piecesSignature s) := by
  obtain ⟨typeParams, thisType, params⟩ := s
  rw [Ty.piecesSignature, size_append, size_token, size_append]
  refine Signature.forall_parts.2 ⟨fun p hp u hu => ?_, fun u hu => ?_, fun p hp u hu => ?_⟩
  · have hmem : p.pieces ∈ Ty.piecesTypeParams typeParams := by
      rw [Ty.piecesTypeParams_eq]
      exact List.mem_map_of_mem hp
    have hlt := p.size_parts_lt u hu
    have hle := size_lt_angledBy hmem
    omega
  · obtain rfl : thisType = some u := hu
    have hmem : (word .this :: mark .colon :: u.pieces) ∈
        Ty.piecesThis (some u) ++ Ty.piecesParams params :=
      List.mem_append.2 (.inl (List.mem_singleton.2 rfl))
    have hle := size_le_separatedBy .comma hmem
    rw [size_token, size_token] at hle
    omega
  · have hmem : p.pieces ∈ Ty.piecesThis thisType ++ Ty.piecesParams params := by
      rw [Ty.piecesParams_eq]
      exact List.mem_append.2 (.inr (List.mem_map_of_mem hp))
    have hlt := p.size_parts_lt u hu
    have hle := size_le_separatedBy .comma hmem
    omega

/-- The types in a call signature have fewer tokens than it. -/
theorem Callable.size_parts_lt (c : Callable Ty) :
    ∀ u, .type u ∈ c.parts → size u.pieces < size c.pieces := by
  rw [Callable.pieces, size_append, size_append]
  refine Callable.forall_parts.2 ⟨fun u hu => ?_, fun u hu => ?_⟩
  · have hlt := c.signature.size_parts_lt u hu
    omega
  · have hlt := Ty.size_lt_after (.punct .colon) u hu
    omega

/-- The types in an index signature have fewer tokens than it. -/
theorem IndexSignature.size_parts_lt (i : IndexSignature Ty) :
    ∀ u, .type u ∈ i.parts → size u.pieces < size i.pieces := by
  rw [IndexSignature.forall_parts]
  simp only [IndexSignature.pieces, size_append, size_token]
  constructor <;> omega

/-- The types in a member have fewer tokens than it. -/
theorem Member.size_parts_lt (m : Member Ty) :
    ∀ u, .type u ∈ m.parts → size u.pieces < size m.pieces := by
  intro u hu
  rw [Member.pieces, size_append]
  suffices hbody : size u.pieces < size m.body by omega
  cases m with
  | property p =>
    cases List.mem_singleton.1 hu
    have hbody : (Member.property p).body = piecesIf p.readonly [word .readonly] ++
        ([Token.name p.name] ++ (piecesIf p.optional [mark .question] ++ ([mark .colon] ++
        (p.type.pieces ++ [mark .semicolon])))) := rfl
    simp only [hbody, size_append, size_token]
    omega
  | method d =>
    have hlt := Callable.size_parts_lt ⟨d.docs, d.signature, d.returns⟩ u hu
    have hbody : (Member.method d).body = d.kind.pieces ++ ([Token.name d.name] ++
        (piecesIf d.optional [mark .question] ++
        Callable.pieces ⟨d.docs, d.signature, d.returns⟩)) := rfl
    simp only [hbody, size_append]
    omega
  | call c => exact c.size_parts_lt u hu
  | construct c => exact Nat.lt_succ_of_lt (c.size_parts_lt u hu)
  | index i => exact i.size_parts_lt u hu

/-- The type of a tuple element has no more tokens than the element. It may have as many. -/
theorem TupleElement.size_type_le (e : TupleElement Ty) : size e.type.pieces ≤ size e.pieces := by
  obtain ⟨type, name, optional, rest⟩ := e
  cases name with
  | none =>
    simp only [TupleElement.pieces, size_append]
    omega
  | some name =>
    simp only [TupleElement.pieces, size_append, size_token]
    omega

end

/-- A part of a canonical type has fewer tokens than the type. -/
theorem Ty.size_parts_lt {t : Ty} (ht : t.Fits) :
    ∀ u, .type u ∈ t.parts → size u.pieces < size t.pieces := by
  cases ht with
  | @named name args =>
    refine Part.forall_map.2 fun u hu => ?_
    have hlt := size_lt_angledBy (mem_piecesList hu)
    rw [Ty.pieces, size_append]
    omega
  | primitive | string | number | boolean | typeOf | uniqueSymbol | infer | template | this =>
    nofun
  | union hlength | intersection hlength =>
    refine Part.forall_map.2 fun u hu => ?_
    rw [Ty.pieces]
    refine size_lt_separatedBy ?_ (mem_piecesList hu)
    rwa [Ty.piecesList_eq, List.length_map]
  | @function signature returns =>
    rw [Ty.pieces, size_append, size_token]
    refine forall_parts_function.2 ⟨fun u hu => ?_, by omega⟩
    have hlt := signature.size_parts_lt u hu
    omega
  | @construct isAbstract signature returns =>
    rw [Ty.pieces, size_append, size_token, size_append, size_token]
    refine forall_parts_construct.2 ⟨fun u hu => ?_, by omega⟩
    have hlt := signature.size_parts_lt u hu
    omega
  | @object members =>
    refine Part.forall_flatMap.2 fun m hm u hu => ?_
    have hlt := m.size_parts_lt u hu
    obtain ⟨before, after, rfl⟩ := List.append_of_mem hm
    simp only [Ty.pieces, Ty.piecesMembers_eq, List.flatMap_append, List.flatMap_cons, size_append,
      size_token]
    omega
  | array =>
    refine Part.forall_singleton.2 ?_
    rw [Ty.pieces, size_append, size_token]
    omega
  | @tuple elements =>
    refine Part.forall_map.2 fun e he => ?_
    have hmem : e.pieces ∈ Ty.piecesElements elements := by
      rw [Ty.piecesElements_eq]
      exact List.mem_map_of_mem he
    have hle := size_le_separatedBy .comma hmem
    have htype := e.size_type_le
    rw [Ty.pieces, size_token, size_append]
    omega
  | keyOf | readonly => exact Part.forall_singleton.2 (Nat.lt_succ_self _)
  | @index target key =>
    simp only [Ty.pieces, size_append, size_token]
    exact forall_parts_index.2 ⟨by omega, by omega⟩
  | @conditional check bound whenTrue whenFalse =>
    simp only [Ty.pieces, size_append, size_token]
    exact forall_parts_conditional.2 ⟨by omega, by omega, by omega, by omega⟩
  | @mapped key keys nameType value =>
    simp only [Ty.pieces, size_append, size_token]
    refine forall_parts_mapped.2 ⟨by omega, fun u hu => ?_, by omega⟩
    have hlt := size_lt_after (.keyword .asKw) u hu
    omega
  | @imported module qualifier args isTypeof =>
    refine Part.forall_map.2 fun u hu => ?_
    have hlt := size_lt_angledBy (mem_piecesList hu)
    cases qualifier with
    | none =>
      simp only [Ty.pieces, size_append, size_token]
      omega
    | some q =>
      simp only [Ty.pieces, size_append, size_token]
      omega
  | predicate =>
    refine forall_optionParts.2 fun u hu => ?_
    have hlt := size_lt_after (.keyword .is) u hu
    rw [Ty.pieces, size_append, size_token]
    omega
  | paren =>
    refine Part.forall_singleton.2 ?_
    rw [Ty.pieces, size_token, size_append]
    omega

end DeclLayer
