import DeclLayer.Proofs.Parse.Types
import DeclLayer.Proofs.Render.ItemPieces

/-!
# Reading class members

What the parsers for the members of classes read. The words in front of a member are taken one by
one, as long as the next token shows that a word is no name; a member without a type ends right
after its name.
-/

namespace DeclLayer

open Token DeclLayer.Parser Literal

namespace Parser

variable {docs : Docs} {k : List Piece} {text : String}

/-! ## Words in front of a member -/

/-- Read in their order, the words give what they say. -/
theorem MemberModifiers.foldlM_words (m : MemberModifiers) :
    m.words.foldlM (fun m word => m.add? (.keyword word)) .none = some m := by
  obtain ⟨visibility, isStatic, isAbstract, readonly⟩ := m
  cases visibility <;> cases isStatic <;> cases isAbstract <;> cases readonly <;> rfl

/-- A class member begins here: its first token goes on as a member, and is no word in front of one.
-/
structure MemberAhead (ps : List Piece) : Prop where
  modifies : modifies (kindAt ps 0) = true
  stops : ∀ m : MemberModifiers, (m.add? (kindAt ps 0)).isSome = true →
    Parser.modifies (kindAt ps 1) = false

/-- The name of a member is no word in front of a member. -/
theorem NameAhead.memberAhead (h : NameAhead text k) : MemberAhead ([name text] ++ k) := by
  refine ⟨modifies_of_startsPropertyName h.starts, fun m hm => ?_⟩
  rw [h.single fun p hp => ?_]
  · exact (modifies_of_followsMemberName h.follows).1
  · rw [hp] at hm
    cases hm

namespace Reads

/-- The words in front of a class member are read back, for any number of turns above their number.
-/
theorem memberModifiersFor (hk : MemberAhead k) :
    ∀ (ws : List Keyword) (n : Nat) (m r : MemberModifiers) (docs : Docs), ws.length < n →
      ws.foldlM (fun m word => m.add? (.keyword word)) m = some r →
      Reads docs (Parser.memberModifiersFor m n) (ws.map word) r k := by
  intro ws
  induction ws with
  | nil =>
    intro n m r docs hn hr
    obtain ⟨n, rfl⟩ := Nat.exists_eq_succ_of_ne_zero (Nat.ne_of_gt hn)
    obtain rfl : m = r := Option.some.inj hr
    refine bind_nil peek ?_
    rw [List.map_nil, List.nil_append]
    split
    · next m' hadd =>
      refine bind_nil isModifier ?_
      rw [List.nil_append, hk.stops m (hadd ▸ rfl)]
      exact pure m
    · exact pure m
  | cons w ws ih =>
    intro n m r docs hn hr
    obtain ⟨n, rfl⟩ := Nat.exists_eq_succ_of_ne_zero (Nat.ne_of_gt (Nat.zero_lt_of_lt hn))
    rw [List.foldlM_cons] at hr
    obtain ⟨m', hadd, hrest⟩ := Option.bind_eq_some_iff.1 hr
    have hnext : modifies (kindAt (ws.map word ++ k) 0) = true := by
      cases ws with
      | nil => exact hk.modifies
      | cons v ws => rfl
    refine bind_nil peek ?_
    rw [List.map_cons, List.cons_append, kindAt_token_zero, hadd]
    refine bind_nil isModifier ?_
    rw [List.cons_append, kindAt_token_succ, hnext]
    exact bind_token skip (ih n m' r [] (Nat.lt_of_succ_lt_succ hn) hrest)

end Reads

/-! ## Members -/

/-- Reads a class member after the words in front of it. -/
def classMemberAfter (docs : Docs) (m : MemberModifiers) : Parser (List ClassMember) := do
  if (← check (.ident "constructor")) && (← peekAt 1) == .punct .lparen then
    skip
    let (_, params) ← params type
    skipSemicolon
    return [.constructor ⟨docs, m.visibility, params⟩]
  else if ← atIndexSignature then
    return [.index (← indexSignature type docs m.readonly)]
  else namedClassMember docs m

namespace Reads

/-- A semicolon is passed. -/
theorem skipSemicolon : Reads docs Parser.skipSemicolon [mark .semicolon] () k :=
  discard accept

/-- What stands behind the name of a class property follows a member's name. -/
theorem classProperty_ahead {p : ClassProperty} (hname : IsMemberName p.name) :
    NameAhead p.name (piecesIf p.optional [mark .question] ++
      (Ty.piecesAfter (.punct .colon) p.type ++ [mark .semicolon]) ++ k) :=
  nameAhead hname (by cases p.optional <;> cases p.type <;> rfl)

/-- What stands behind the name of a class method follows a member's name. -/
theorem classMethod_ahead {m : ClassMethod} (hname : IsMemberName m.name) :
    NameAhead m.name (piecesIf m.optional [mark .question] ++ (Ty.piecesSignature m.signature ++
      (Ty.piecesAfter (.punct .colon) m.returns ++ [mark .semicolon])) ++ k) := by
  refine nameAhead hname ?_
  cases m.optional with
  | true => rfl
  | false =>
    have hstart := signature_start m.signature
      (Ty.piecesAfter (.punct .colon) m.returns ++ [mark .semicolon] ++ k)
    rw [← List.append_assoc] at hstart
    rcases hstart with h | h
    · exact (congrArg followsMemberName h).trans rfl
    · exact (congrArg followsMemberName h).trans rfl

/-- A class property is read back from its name on. -/
theorem namedClassMember_property {p : ClassProperty} (hname : IsMemberName p.name)
    (htype : ∀ t ∈ p.type, t.Canonical ∧ 1 ≤ t.rank) :
    Reads docs (Parser.namedClassMember p.docs ⟨p.visibility, p.isStatic, p.isAbstract, p.readonly⟩)
      ([name p.name] ++ (piecesIf p.optional [mark .question] ++
        (Ty.piecesAfter (.punct .colon) p.type ++ [mark .semicolon]))) [.property p] k := by
  have hread : ∀ t ∈ p.type, t.Read Parser.type ∧ 1 ≤ t.rank := fun t ht =>
    ⟨t.read_type (htype t ht).1, (htype t ht).2⟩
  have hend : kindAt (Ty.piecesAfter (.punct .colon) p.type ++ [mark .semicolon] ++ k) 0 =
      .punct .colon ∨
      kindAt (Ty.piecesAfter (.punct .colon) p.type ++ [mark .semicolon] ++ k) 0 =
        .punct .semicolon := by
    cases p.type with
    | none => exact .inr rfl
    | some t => exact .inl rfl
  refine bind_nil (classProperty_ahead hname).accessorKind
    (bind (attempt (propertyName hname.property)) ?_)
  refine bind (accept_if fun _ heq => ?_) ?_
  · rcases hend with h | h <;> cases h.symm.trans heq
  · refine bind_nil (a := false) ?_ (bind (afterType hread rfl nofun) skipSemicolon.map)
    have hfalse : (MethodKind.method != .method ||
        kindAt (Ty.piecesAfter (.punct .colon) p.type ++ [mark .semicolon] ++ k) 0 ==
          .punct .lparen ||
        kindAt (Ty.piecesAfter (.punct .colon) p.type ++ [mark .semicolon] ++ k) 0 ==
          .punct .langle) = false := by
      rcases hend with h | h <;> rw [h] <;> rfl
    exact hfalse ▸ bind_nil (check _) (bind_nil (check _) (pure _))

/-- A class method is read back from the word in front of its name on. -/
theorem namedClassMember_method {m : ClassMethod} (hname : IsMemberName m.name)
    (h : Callable.Canonical ⟨m.docs, m.signature, m.returns⟩) :
    Reads docs (Parser.namedClassMember m.docs ⟨m.visibility, m.isStatic, m.isAbstract, false⟩)
      (m.kind.pieces ++ ([name m.name] ++ (piecesIf m.optional [mark .question] ++
        (Ty.piecesSignature m.signature ++ (Ty.piecesAfter (.punct .colon) m.returns ++
        [mark .semicolon]))))) [.method m] k := by
  have hread : ∀ u, .type u ∈ Callable.parts ⟨m.docs, m.signature, m.returns⟩ →
      u.Read Parser.type := fun u hu => u.read_type (h.types u hu)
  obtain ⟨hsignature, hreturned⟩ := Callable.forall_parts.1 hread
  have hreturns : ∀ u ∈ m.returns, u.Read Parser.type ∧ u.FitsReturn := fun u hu =>
    ⟨hreturned u hu, h.fits.returns u hu⟩
  refine bind (accessorKind (classMethod_ahead hname))
    (bind (attempt (propertyName hname.property)) ?_)
  refine bind (accept_if fun _ => ?_) ?_
  · rw [List.append_assoc]
    rcases signature_start m.signature _ with h | h <;> exact h ▸ (by rintro ⟨⟩)
  · refine bind_nil (a := true) ?_ ?_
    · rw [List.append_assoc]
      exact continuesAsMethod m.kind m.signature
    · refine bind (signature h.fits.signature hsignature) ?_
      exact bind (annotatedReturn hreturns rfl (by rintro ⟨⟩)) skipSemicolon.map

/-- A class member with a name is told by what it is not. -/
theorem classMemberAfter_named {ps : List Piece} {d : Docs} {mods : MemberModifiers}
    {m : ClassMember}
    (hconstructor : kindAt (ps ++ k) 0 = .ident "constructor" → kindAt (ps ++ k) 1 ≠ .punct .lparen)
    (hindex : indexAhead (ps ++ k) = false)
    (h : Reads docs (Parser.namedClassMember d mods) ps [m] k) :
    Reads docs (classMemberAfter d mods) ps [m] k := by
  refine bind_nil (check _) (bind_nil (peekAt 1) ?_)
  rw [if_neg]
  · exact bind_nil (a := false) (hindex ▸ atIndexSignature) h
  · intro heq
    obtain ⟨hfirst, hsecond⟩ := Bool.and_eq_true_iff.1 heq
    exact hconstructor (beq_iff_eq.1 hfirst) (beq_iff_eq.1 hsecond)

/-- A constructor is read back behind its modifiers. -/
theorem classMemberAfter_constructor {c : ClassConstructor}
    (h : (ClassMember.constructor c).Canonical) :
    Reads docs (classMemberAfter c.docs ⟨c.visibility, false, false, false⟩)
      (ClassMember.constructor c).body [.constructor c] k := by
  obtain ⟨hfits, htypes⟩ := h
  cases hfits with
  | constructor hdocs hparams =>
    have hread : ∀ p ∈ c.params, ∀ u, .type u ∈ p.parts → u.Read Parser.type := fun p hp u hu =>
      u.read_type (htypes u (List.mem_flatMap.2 ⟨p, hp, hu⟩))
    have hbody : (ClassMember.constructor c).body = .token (.ident "constructor") ::
        ((mark .lparen :: (separatedBy .comma (Ty.piecesThis none ++ Ty.piecesParams c.params) ++
          [mark .rparen])) ++ [mark .semicolon]) := by
      simp only [ClassMember.body, Ty.piecesThis, List.append_assoc, List.cons_append,
        List.nil_append]
    rw [hbody]
    refine bind_nil (check _) (bind_nil (peekAt 1) ?_)
    exact bind_token skip (bind (params none nofun hparams hread) skipSemicolon.map)

/-- An index signature of a class is read back behind its modifiers. -/
theorem classMemberAfter_index {i : IndexSignature Ty} (h : (ClassMember.index i).Canonical)
    (hk : kindAt k 0 ≠ .punct .comma) :
    Reads docs (classMemberAfter i.docs ⟨.everyone, false, false, i.readonly⟩)
      (ClassMember.index i).body [.index i] k := by
  obtain ⟨hfits, htypes⟩ := h
  cases hfits with
  | index hi =>
    have hkey : (wordKind i.key).isIdentLike = true := (Bool.and_eq_true_iff.1 hi.key).2
    refine bind_nil (check_other nofun) (bind_nil (peekAt 1) ?_)
    exact bind_nil (atIndexSignature_true hkey)
      (indexSignature hi (fun u hu => u.read_type (htypes u hu)) hk).map

/-- A class member after the words in front of it. -/
theorem classMember_of {m : ClassMember} (hahead : MemberAhead (m.body ++ k))
    (hdocs : Reads m.docs Parser.docs [] m.docs (m.body ++ k))
    (h : ∀ docs, Reads docs (classMemberAfter m.docs m.modifiers) m.body [m] k) :
    Reads [] Parser.classMember m.pieces [m] k := by
  refine docs_append ?_
  rw [List.nil_append]
  have hread : Reads m.docs Parser.docs [] m.docs (m.modifiers.words.map word ++ m.body ++ k) := by
    cases m.modifiers.words with
    | nil => exact hdocs
    | cons w ws => exact docs_token
  refine bind_nil hread (bind_nil turns (bind (memberModifiersFor hahead m.modifiers.words _ .none
    m.modifiers _ ?_ m.modifiers.foldlM_words) (h _)))
  have hlength (ws : List Keyword) : (kinds (ws.map word)).length = ws.length := by
    induction ws with
    | nil => rfl
    | cons w ws ih => exact congrArg (· + 1) ih
  simp only [kinds_append, List.length_append, hlength]
  omega

/-- A class property is read back. -/
theorem classMember_property {p : ClassProperty} (hname : IsMemberName p.name)
    (htype : ∀ t ∈ p.type, t.Canonical ∧ 1 ≤ t.rank) :
    Reads [] Parser.classMember (ClassMember.property p).pieces [.property p] k := by
  have hahead := classProperty_ahead (p := p) (k := k) hname
  refine classMember_of hahead.memberAhead (docs_name hname.property) fun docs =>
    classMemberAfter_named (fun hfirst => ?_) hahead.indexAhead_eq_false
      (namedClassMember_property hname htype)
  rw [show kindAt (_ ++ k) 1 = _ from hahead.kindAt_one hfirst nofun]
  cases p.optional <;> cases p.type <;> nofun

/-- A class method is read back. One that is no accessor and has the name `constructor` would be
taken for a constructor unless a mark or type parameters follow the name. -/
theorem classMember_method {m : ClassMethod} (hname : IsMemberName m.name)
    (hcallable : Callable.Canonical ⟨m.docs, m.signature, m.returns⟩)
    (hconstructor : m.name = "constructor" → m.kind = .method → m.optional = false →
      m.signature.typeParams ≠ []) :
    Reads [] Parser.classMember (ClassMember.method m).pieces [.method m] k := by
  have hahead := classMethod_ahead (m := m) (k := k) hname
  refine classMember_of ?_ ?_ fun docs => classMemberAfter_named ?_ ?_
    (namedClassMember_method hname hcallable)
  · rw [ClassMember.body]
    cases m.kind with
    | method => exact hahead.memberAhead
    | get | set => exact ⟨rfl, nofun⟩
  · rw [ClassMember.body]
    cases m.kind with
    | method => exact docs_name hname.property
    | get | set => exact docs_token
  · rw [ClassMember.body]
    cases hkind : m.kind with
    | method =>
      intro hfirst
      have hsignature := hconstructor (hname.property.eq_ident hfirst) hkind
      rw [show kindAt (_ ++ k) 1 = _ from hahead.kindAt_one hfirst nofun]
      cases hoptional : m.optional with
      | true => exact nofun
      | false =>
        have htypeParams := hsignature hoptional
        generalize m.signature = s at htypeParams ⊢
        obtain ⟨typeParams, thisType, params⟩ := s
        cases typeParams with
        | nil => exact absurd rfl htypeParams
        | cons p ps => exact nofun
    | get =>
      intro hfirst
      have hword : "get" = "constructor" := Kind.ident.inj hfirst
      exact absurd hword (by decide)
    | set =>
      intro hfirst
      have hword : "set" = "constructor" := Kind.ident.inj hfirst
      exact absurd hword (by decide)
  · rw [ClassMember.body]
    cases m.kind with
    | method => exact hahead.indexAhead_eq_false
    | get | set => rfl

/-- A canonical class member is read back. -/
theorem classMember {m : ClassMember} (h : m.Canonical) (hk : kindAt k 0 ≠ .punct .comma) :
    Reads [] Parser.classMember m.pieces [m] k := by
  obtain ⟨hfits, htypes⟩ := id h
  cases hfits with
  | property _ hname htype =>
    have hcanonical := Ty.forall_optionParts.1 htypes
    exact classMember_property hname fun t ht => ⟨hcanonical t ht, htype t ht⟩
  | method hname hcallable hconstructor =>
    exact classMember_method hname ⟨hcallable, htypes⟩ hconstructor
  | constructor =>
    exact classMember_of ⟨rfl, nofun⟩ docs_token fun docs => classMemberAfter_constructor h
  | index =>
    exact classMember_of ⟨rfl, nofun⟩ docs_token fun docs => classMemberAfter_index h hk

/-! ### All members -/

/-- Behind a class member no comments wait. -/
theorem docsAfter_classMember (m : ClassMember) (docs : Docs) : docsAfter docs m.pieces = [] := by
  cases m <;> simp [ClassMember.pieces, ClassMember.body]

/-- A class member begins with a token that no list of members ends with. -/
theorem classMember_start {m : ClassMember} (hm : m.Fits) (k : List Piece) :
    (kindAt (m.pieces ++ k) 0).startsPropertyName = true := by
  rw [ClassMember.pieces, List.append_assoc, kindAt_docs]
  cases m.modifiers.words with
  | cons w ws => rfl
  | nil =>
    cases hm with
    | property _ hname => exact (classProperty_ahead hname).starts
    | @method d hname =>
      rw [ClassMember.body]
      cases d.kind with
      | method => exact (classMethod_ahead hname).starts
      | get | set => rfl
    | constructor | index => rfl

/-- Class members up to the closing brace. -/
theorem classMembers {ms : List ClassMember} (h : ∀ m ∈ ms, m.Canonical) :
    Reads [] (Parser.many (Parser.atEnd .rbrace) Parser.classMember)
      (ms.flatMap ClassMember.pieces) ms (mark .rbrace :: k) := by
  have hstart {m : ClassMember} (hm : m ∈ ms) {kind : Kind} (k : List Piece)
      (hkind : kind.startsPropertyName = false) : kindAt (m.pieces ++ k) 0 ≠ kind := by
    rintro rfl
    rw [classMember_start (h m hm).fits k] at hkind
    cases hkind
  exact manyUntil (C := fun k => kindAt k 0 ≠ .punct .comma) nofun
    (fun m hm k => ⟨hstart hm k rfl, hstart hm k rfl⟩)
    fun m hm k hk => ⟨classMember (h m hm) hk, docsAfter_classMember m [], hstart hm k rfl⟩

end Reads

end Parser

end DeclLayer
