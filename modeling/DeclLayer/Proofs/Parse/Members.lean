import DeclLayer.Proofs.Parse.Signatures

/-!
# Reading members

What the parsers for the members of interfaces and object types read. A member is told by its first
tokens, so most of the work is to see that none of them can be taken for another member: a word such
as `readonly`, `get` or `new` may also be a name, and then what comes after a name follows it.
-/

namespace DeclLayer

open Token DeclLayer.Parser Literal

namespace Parser

variable {ty : Parser Ty} {docs : Docs} {k : List Piece} {text : String}

/-! ## Names of members -/

/-- Whether a token comes after the name of a member. -/
def followsMemberName : Kind → Bool
  | .punct .question | .punct .colon | .punct .lparen | .punct .langle | .punct .semicolon => true
  | _ => false

/-- The tokens of a property name: one token of a value or a word, or a bracketed text. -/
theorem IsPropertyName.kinds_eq (h : IsPropertyName text) :
    (∃ kind, kinds [name text] = [kind] ∧
      (kind = wordKind text ∨ (∃ value, kind = .string value) ∨ kind = .number text)) ∨
    ∃ ks, kinds [name text] = .punct .lbracket :: ks ∧ textKinds text = .punct .lbracket :: ks ∧
      closesAt 0 (.punct .lbracket :: ks) = true := by
  cases h with
  | word h =>
    rw [name, if_pos h]
    exact .inl ⟨_, rfl, .inl rfl⟩
  | quoted value h =>
    subst h
    rw [name, isWord_quote, if_neg Bool.false_ne_true, kinds_verbatim, textKinds,
      (Cuts.quote value).lexemes_eq]
    exact .inl ⟨_, rfl, .inr (.inl ⟨value, rfl⟩)⟩
  | number h =>
    rw [name, isWord_of_isNumber h, if_neg Bool.false_ne_true, kinds_verbatim, textKinds,
      (Cuts.number h).lexemes_eq]
    exact .inl ⟨_, rfl, .inr (.inr rfl)⟩
  | computed ls cuts solid closes first =>
    obtain ⟨ks, hks⟩ := List.head?_eq_some_iff.1 first
    rw [name, isWord_of_punct first, if_neg Bool.false_ne_true, kinds_verbatim, kinds_nil,
      List.append_nil, hks]
    exact .inr ⟨ks, rfl, rfl, hks ▸ closes⟩

/-- A property name of one token is no mark. -/
theorem single_startsPropertyName {kind : Kind}
    (h : kind = wordKind text ∨ (∃ value, kind = .string value) ∨ kind = .number text) :
    kind.startsPropertyName = true ∧ ∀ p, kind ≠ .punct p := by
  rcases h with rfl | ⟨value, rfl⟩ | rfl
  · rcases wordKind_cases text with hw | ⟨kw, hw, -⟩ <;> rw [hw] <;> exact ⟨rfl, nofun⟩
  · exact ⟨rfl, nofun⟩
  · exact ⟨rfl, nofun⟩

/-- A property name begins with a token that can begin one. -/
theorem IsPropertyName.starts (h : IsPropertyName text) :
    (kindAt ([name text] ++ k) 0).startsPropertyName = true := by
  rcases h.kinds_eq with ⟨kind, hkinds, hkind⟩ | ⟨ks, hkinds, -⟩
  · rw [kindAt_head hkinds]
    exact (single_startsPropertyName hkind).1
  · rw [kindAt_head hkinds]
    rfl

/-- What the tokens ahead look like if a member begins with its name. -/
structure NameAhead (text : String) (k : List Piece) : Prop where
  starts : (kindAt ([name text] ++ k) 0).startsPropertyName = true
  /-- A word is a name of its own. -/
  single : (∀ p, kindAt ([name text] ++ k) 0 ≠ .punct p) → kindAt ([name text] ++ k) 1 = kindAt k 0
  /-- A computed name is no index signature. -/
  noIndex : kindAt ([name text] ++ k) 0 = .punct .lbracket →
    (kindAt ([name text] ++ k) 1).isIdentLike = true → kindAt ([name text] ++ k) 2 ≠ .punct .colon
  follows : followsMemberName (kindAt k 0) = true

/-- A member's name with something behind it that follows a name. -/
theorem nameAhead (h : IsMemberName text) (hk : followsMemberName (kindAt k 0) = true) :
    NameAhead text k := by
  rcases h.property.kinds_eq with ⟨kind, hkinds, hkind⟩ | ⟨ks, hkinds, htext, hcloses⟩
  · have hfirst : kindAt ([name text] ++ k) 0 = kind := kindAt_head hkinds
    exact ⟨h.property.starts, fun _ => kindAt_single hkinds,
      fun heq => absurd (hfirst.symm.trans heq) ((single_startsPropertyName hkind).2 _), hk⟩
  · have hfirst : kindAt ([name text] ++ k) 0 = .punct .lbracket := kindAt_head hkinds
    refine ⟨h.property.starts, fun h => absurd hfirst (h _), fun _ hident hcolon => ?_, hk⟩
    -- The second and the third token belong to the name, which has to be closed.
    match ks with
    | [] => cases hcloses
    | [next] =>
      have hsecond : kindAt ([name text] ++ k) 1 = next := kindAt_second hkinds
      rw [hsecond] at hident
      cases next with
      | ident | keyword => cases hcloses
      | string | number | template | punct | directive | eof => cases hident
    | next :: third :: ks =>
      have hsecond : kindAt ([name text] ++ k) 1 = next := kindAt_second hkinds
      have hthird : kindAt ([name text] ++ k) 2 = third := by
        rw [kindAt, kinds_append, hkinds]
        rfl
      rw [hsecond] at hident
      rw [hthird] at hcolon
      exact h.noIndex ⟨next, ks, hcolon ▸ htext, hident⟩

/-- Only a word begins like a word. -/
theorem IsPropertyName.wordKind_eq (h : IsPropertyName text) {kind : Kind}
    (hkind : kindAt ([name text] ++ k) 0 = kind)
    (hword : (∃ w, kind = .ident w) ∨ ∃ keyword, kind = .keyword keyword) :
    wordKind text = kind := by
  rcases h.kinds_eq with ⟨first, hkinds, hfirst⟩ | ⟨ks, hkinds, -⟩
  · obtain rfl : first = kind := (kindAt_head hkinds).symm.trans hkind
    rcases hfirst with rfl | ⟨value, rfl⟩ | rfl
    · rfl
    · rcases hword with ⟨w, hword⟩ | ⟨keyword, hword⟩ <;> cases hword
    · rcases hword with ⟨w, hword⟩ | ⟨keyword, hword⟩ <;> cases hword
  · obtain rfl : .punct .lbracket = kind := (kindAt_head hkinds).symm.trans hkind
    rcases hword with ⟨w, hword⟩ | ⟨keyword, hword⟩ <;> cases hword

/-- A property name that begins with an identifier is the identifier. -/
theorem IsPropertyName.eq_ident (h : IsPropertyName text) {w : String}
    (hkind : kindAt ([name text] ++ k) 0 = .ident w) : text = w := by
  have hword := h.wordKind_eq hkind (.inl ⟨w, rfl⟩)
  rcases wordKind_cases text with hw | ⟨kw, hw, -⟩
  · exact Kind.ident.inj (hw.symm.trans hword)
  · cases hw.symm.trans hword

/-- A property name that begins with a keyword is the keyword. -/
theorem IsPropertyName.eq_text (h : IsPropertyName text) {keyword : Keyword}
    (hkind : kindAt ([name text] ++ k) 0 = .keyword keyword) : text = keyword.text := by
  have hword := h.wordKind_eq hkind (.inr ⟨keyword, rfl⟩)
  rcases wordKind_cases text with hw | ⟨kw, hw, htext⟩
  · cases hw.symm.trans hword
  · cases hw.symm.trans hword
    exact htext.symm

/-! ## What the tokens ahead are taken for -/

/-- Whether a word is a modifier in front of a token. -/
def modifies : Kind → Bool
  | .punct p =>
    !(p == .colon || p == .question || p == .lparen || p == .langle || p == .semicolon ||
      p == .comma || p == .rbrace || p == .eq)
  | _ => true

/-- In front of a property name a word is a modifier. -/
theorem modifies_of_startsPropertyName {kind : Kind} (h : kind.startsPropertyName = true) :
    modifies kind = true := by
  cases kind with
  | punct p =>
    obtain rfl : p = .lbracket := beq_iff_eq.1 h
    rfl
  | ident | string | number | template | keyword | directive | eof => rfl

/-- In front of what follows a name a word is the name itself, and no property name begins there. -/
theorem modifies_of_followsMemberName {kind : Kind} (h : followsMemberName kind = true) :
    modifies kind = false ∧ kind.startsPropertyName = false := by
  unfold followsMemberName at h
  split at h
  · exact ⟨rfl, rfl⟩
  · exact ⟨rfl, rfl⟩
  · exact ⟨rfl, rfl⟩
  · exact ⟨rfl, rfl⟩
  · exact ⟨rfl, rfl⟩
  · cases h

/-- Whether a word is a modifier is told by the token behind it. -/
theorem Reads.isModifier : Reads docs Parser.isModifier [] (modifies (kindAt k 1)) k := by
  refine bind_nil (peekAt 1) ?_
  rw [List.nil_append]
  cases kindAt k 1 with
  | punct p => exact pure _
  | ident | string | number | template | keyword | directive | eof => exact pure true

/-- Whether tokens begin like an index signature. -/
def indexAhead (ps : List Piece) : Bool :=
  kindAt ps 0 == .punct .lbracket && (kindAt ps 1).isIdentLike && kindAt ps 2 == .punct .colon

/-- Whether an index signature is ahead is told by three tokens. -/
theorem Reads.atIndexSignature : Reads docs Parser.atIndexSignature [] (indexAhead k) k :=
  bind_nil (check _) (bind_nil (peekAt 1) (bind_nil (peekAt 2) (pure _)))

/-- A word in square brackets with a colon behind it begins an index signature. -/
theorem Reads.atIndexSignature_true {kind : Kind} (h : kind.isIdentLike = true) :
    Reads docs Parser.atIndexSignature [] true
      (mark .lbracket :: .token kind :: mark .colon :: k) := by
  have htrue : indexAhead (mark .lbracket :: .token kind :: mark .colon :: k) = true := by
    show (true && kind.isIdentLike && true) = true
    rw [h]
    rfl
  exact htrue ▸ atIndexSignature

namespace NameAhead

variable (h : NameAhead text k)

include h

/-- A member's name begins no index signature, also if it is a computed one. -/
theorem indexAhead_eq_false : indexAhead ([name text] ++ k) = false := by
  rw [Bool.eq_false_iff]
  intro heq
  simp only [indexAhead, Bool.and_eq_true, beq_iff_eq] at heq
  exact h.noIndex heq.1.1 heq.1.2 heq.2

/-- A member's name begins no call signature. -/
theorem not_bracket : kindAt ([name text] ++ k) 0 ≠ .punct .lparen ∧
    kindAt ([name text] ++ k) 0 ≠ .punct .langle := by
  have hstarts := h.starts
  constructor
  · intro heq
    rw [heq] at hstarts
    cases hstarts
  · intro heq
    rw [heq] at hstarts
    cases hstarts

/-- A word at the beginning is the name. -/
theorem kindAt_one {kind : Kind} (hkind : kindAt ([name text] ++ k) 0 = kind)
    (hpunct : ∀ p, kind ≠ .punct p) : kindAt ([name text] ++ k) 1 = kindAt k 0 :=
  h.single fun p hp => hpunct p (hkind.symm.trans hp)

/-- A keyword that is the member's name is not taken for a modifier. -/
theorem not_modifier (keyword : Keyword) : (kindAt ([name text] ++ k) 0 == .keyword keyword &&
    modifies (kindAt ([name text] ++ k) 1)) = false := by
  rw [Bool.eq_false_iff]
  intro heq
  obtain ⟨hkeyword, hmodifies⟩ := Bool.and_eq_true_iff.1 heq
  rw [h.kindAt_one (beq_iff_eq.1 hkeyword) nofun, (modifies_of_followsMemberName h.follows).1]
    at hmodifies
  cases hmodifies

/-- The words `get` and `set` are no accessors if they are the member's name. -/
theorem accessorKind : Reads docs Parser.accessorKind [] .method ([name text] ++ k) := by
  refine Reads.bind_nil Reads.peek ?_
  have hident {word : String} (hword : kindAt ([name text] ++ k) 0 = .ident word) :
      (kindAt ([name text] ++ k) 1).startsPropertyName = false := by
    rw [h.kindAt_one hword nofun]
    exact (modifies_of_followsMemberName h.follows).2
  rw [List.nil_append]
  split
  · next heq =>
    refine Reads.bind_nil (Reads.peekAt 1) ?_
    rw [List.nil_append, hident heq]
    exact Reads.pure MethodKind.method
  · next heq =>
    refine Reads.bind_nil (Reads.peekAt 1) ?_
    rw [List.nil_append, hident heq]
    exact Reads.pure MethodKind.method
  · exact Reads.bind_nil (Reads.peekAt 1) (Reads.pure MethodKind.method)

end NameAhead

/-! ## Members -/

/-- Reads a member after the word `readonly`. -/
def memberAfter (ty : Parser Ty) (docs : Docs) (readonly : Bool) : Parser (List (Member Ty)) := do
  if ← atIndexSignature then
    return [.index (← indexSignature ty docs readonly)]
  else if (← checkMark .lparen) || (← checkMark .langle) then
    return [.call (← callable ty docs)]
  else if (← checkKeyword .new) &&
      ((← peekAt 1) == .punct .lparen || (← peekAt 1) == .punct .langle) then
    skip
    let ⟨docs, signature, returns⟩ ← callable ty docs
    return [.construct ⟨docs, { signature with thisType := none }, returns⟩]
  else namedMember ty docs readonly

/-- A parser whose answer is dropped reads the same. -/
theorem Reads.discard {α : Type} {p : Parser α} {ps : List Piece} {a : α}
    (h : Reads docs p ps a k) :
    Reads docs (discard p) ps () k :=
  h.map (g := fun _ => ())

namespace Reads

/-- The end of a member is its semicolon, unless a comma follows. -/
theorem skipMemberEnd (hk : kindAt k 0 ≠ .punct .comma) :
    Reads docs Parser.skipMemberEnd [mark .semicolon] () k :=
  bind (discard accept) (discard (accept_other hk))

/-- A signature with its return type and the mark after it. -/
theorem callable {c : Callable Ty} (hc : c.Fits) (h : ∀ u, .type u ∈ c.parts → u.Read ty)
    (hk : kindAt k 0 ≠ .punct .comma) :
    Reads docs (Parser.callable ty c.docs) c.pieces c k := by
  obtain ⟨hsignature, hreturned⟩ := Callable.forall_parts.1 h
  have hreturns : ∀ u ∈ c.returns, u.Read ty ∧ u.FitsReturn := fun u hu =>
    ⟨hreturned u hu, hc.returns u hu⟩
  refine bind (signature hc.signature hsignature) ?_
  exact bind (annotatedReturn hreturns rfl (by rintro ⟨⟩)) (skipMemberEnd hk).map

/-- An index signature is read back. -/
theorem indexSignature {i : IndexSignature Ty} (hi : i.Fits)
    (h : ∀ u, .type u ∈ i.parts → u.Read ty) (hk : kindAt k 0 ≠ .punct .comma) :
    Reads docs (Parser.indexSignature ty i.docs i.readonly) (mark .lbracket ::
      .token (wordKind i.key) :: mark .colon :: (i.keyType.pieces ++ mark .rbracket ::
      mark .colon :: (i.value.pieces ++ [mark .semicolon]))) i k := by
  have hkey : (wordKind i.key).isIdentLike = true := (Bool.and_eq_true_iff.1 hi.key).2
  have hkeyType := h i.keyType (List.mem_cons_self ..)
  have hvalue := h i.value (List.mem_cons_of_mem _ (List.mem_singleton.2 rfl))
  refine bind_token expect (bind_token (identifier hkey) (bind_token expect ?_))
  refine bind (hkeyType.ends hi.keyType rfl) (bind_token expect (bind_token expect ?_))
  exact bind (hvalue.ends hi.value rfl) (skipMemberEnd hk).map

/-- A signature begins with a bracket. -/
theorem signature_start (s : Signature Ty) (k : List Piece) :
    kindAt (Ty.piecesSignature s ++ k) 0 = .punct .langle ∨
      kindAt (Ty.piecesSignature s ++ k) 0 = .punct .lparen := by
  obtain ⟨typeParams, thisType, params⟩ := s
  rw [Ty.piecesSignature]
  cases typeParams with
  | nil => exact .inr rfl
  | cons p ps => exact .inl rfl

/-- A call signature begins with a bracket. -/
theorem callable_start (c : Callable Ty) (k : List Piece) :
    kindAt (c.pieces ++ k) 0 = .punct .langle ∨ kindAt (c.pieces ++ k) 0 = .punct .lparen := by
  rw [Callable.pieces, List.append_assoc]
  exact signature_start c.signature _

/-- A signature behind a name makes the member a method. -/
theorem continuesAsMethod (kind : MethodKind) (s : Signature Ty) :
    Reads docs (Parser.continuesAsMethod kind) [] true (Ty.piecesSignature s ++ k) := by
  have htrue : (kind != .method || kindAt (Ty.piecesSignature s ++ k) 0 == .punct .lparen ||
      kindAt (Ty.piecesSignature s ++ k) 0 == .punct .langle) = true := by
    rcases signature_start s k with h | h
    · rw [h]
      exact Bool.or_true _
    · rw [h, beq_self_eq_true, Bool.or_true, Bool.true_or]
  exact htrue ▸ bind_nil (check _) (bind_nil (check _) (pure _))

/-- The word in front of an accessor. -/
theorem accessorKind {kind : MethodKind} (h : NameAhead text k) :
    Reads docs Parser.accessorKind kind.pieces kind ([name text] ++ k) := by
  cases kind with
  | method => exact h.accessorKind
  | get =>
    refine bind_nil peek (bind_nil (peekAt 1) ?_)
    rw [if_pos]
    · exact skip.bind (pure MethodKind.get)
    · exact h.starts
  | set =>
    refine bind_nil peek (bind_nil (peekAt 1) ?_)
    rw [if_pos]
    · exact skip.bind (pure MethodKind.set)
    · exact h.starts

/-- What stands behind the name of a property follows a member's name. -/
theorem property_ahead {p : Property Ty} (hname : IsMemberName p.name) :
    NameAhead p.name (piecesIf p.optional [mark .question] ++ mark .colon ::
      (p.type.pieces ++ [mark .semicolon]) ++ k) :=
  nameAhead hname (by cases p.optional <;> rfl)

/-- What stands behind the name of a method follows a member's name. -/
theorem method_ahead {m : Method Ty} (hname : IsMemberName m.name) :
    NameAhead m.name (piecesIf m.optional [mark .question] ++
      Callable.pieces ⟨m.docs, m.signature, m.returns⟩ ++ k) := by
  refine nameAhead hname ?_
  cases m.optional with
  | true => rfl
  | false =>
    rcases callable_start ⟨m.docs, m.signature, m.returns⟩ k with h | h
    · exact (congrArg followsMemberName h).trans rfl
    · exact (congrArg followsMemberName h).trans rfl

/-- A property is read back from its name on. -/
theorem namedMember_property {p : Property Ty} (hname : IsMemberName p.name)
    (hrank : 1 ≤ p.type.rank) (h : p.type.Read ty) (hk : kindAt k 0 ≠ .punct .comma) :
    Reads docs (Parser.namedMember ty p.docs p.readonly) ([name p.name] ++
      (piecesIf p.optional [mark .question] ++ mark .colon :: (p.type.pieces ++ [mark .semicolon])))
      [.property p] k := by
  refine bind_nil (property_ahead hname).accessorKind
    (bind (attempt (propertyName hname.property)) ?_)
  refine bind (accept_if fun _ => nofun) ?_
  refine bind_nil (a := false) (bind_nil (check _) (bind_nil (check _) (pure _))) ?_
  show Reads _ _ ((mark .colon :: p.type.pieces) ++ [mark .semicolon]) _ k
  exact bind (after (h.ends hrank rfl)) (skipMemberEnd hk).map

/-- A method is read back from the word in front of its name on. -/
theorem namedMember_method {m : Method Ty} (hname : IsMemberName m.name) (readonly : Bool)
    (hcallable : Callable.Fits ⟨m.docs, m.signature, m.returns⟩)
    (h : ∀ u, .type u ∈ (Member.method m).parts → u.Read ty) (hk : kindAt k 0 ≠ .punct .comma) :
    Reads docs (Parser.namedMember ty m.docs readonly) (m.kind.pieces ++ ([name m.name] ++
      (piecesIf m.optional [mark .question] ++ Callable.pieces ⟨m.docs, m.signature, m.returns⟩)))
      [.method m] k := by
  have hstart := signature_start m.signature
  have hcall : Callable.pieces ⟨m.docs, m.signature, m.returns⟩ = Ty.piecesSignature m.signature ++
    (Ty.piecesAfter (.punct .colon) m.returns ++ [mark .semicolon]) := rfl
  refine bind (accessorKind (method_ahead hname)) (bind (attempt (propertyName hname.property)) ?_)
  refine bind (accept_if fun _ => ?_) ?_
  · rw [hcall, List.append_assoc]
    rcases hstart _ with h | h <;> exact h ▸ nofun
  · refine bind_nil (a := true) ?_ ?_
    · rw [hcall, List.append_assoc]
      exact continuesAsMethod m.kind m.signature
    · exact (callable hcallable h hk).map
        (g := fun c => [Member.method ⟨c.docs, m.name, m.kind, c.signature, c.returns, m.optional⟩])

/-! ### One member -/

/-- A text with tokens at both ends has the comments that wait. -/
theorem docs_verbatim (h : Solid text) : Reads docs Parser.docs [] docs (.verbatim text :: k) := by
  intro c hc
  obtain ⟨t, ts, rest, hrest, -, hdocs, -, -⟩ := hc.verbatim h
  refine ⟨c, ?_, hc⟩
  show Except.ok (c.current.docs, c) = _
  rw [Cursor.current, hrest, List.cons_append, List.headD_cons, hdocs]

/-- In front of a name the comments that wait are those of the member. -/
theorem docs_name (h : IsPropertyName text) : Reads docs Parser.docs [] docs (name text :: k) := by
  cases h with
  | word h =>
    rw [name, if_pos h]
    exact docs_token
  | quoted value h =>
    subst h
    rw [name, isWord_quote, if_neg Bool.false_ne_true]
    exact docs_verbatim (.of_single (Cuts.quote value).lexemes_eq)
  | number h =>
    rw [name, isWord_of_isNumber h, if_neg Bool.false_ne_true]
    exact docs_verbatim (.of_single (Cuts.number h).lexemes_eq)
  | computed ls cuts solid closes first =>
    rw [name, isWord_of_punct first, if_neg Bool.false_ne_true]
    exact docs_verbatim solid

/-- In front of a signature the comments that wait are those of the member. -/
theorem docs_signature (s : Signature Ty) :
    Reads docs Parser.docs [] docs (Ty.piecesSignature s ++ k) := by
  obtain ⟨typeParams, thisType, params⟩ := s
  rw [Ty.piecesSignature]
  cases typeParams with
  | nil => exact docs_token
  | cons p ps => exact docs_token

variable {ps : List Piece} {m : Member Ty}

/-- The word `readonly` in front of a member, if it stands there. -/
theorem member_of (readonly : Bool)
    (hdocs : Reads docs Parser.docs [] docs (piecesIf readonly [word .readonly] ++ ps ++ k))
    (hlook : (kindAt (piecesIf readonly [word .readonly] ++ ps ++ k) 0 == .keyword .readonly &&
      modifies (kindAt (piecesIf readonly [word .readonly] ++ ps ++ k) 1)) = readonly)
    (h : ∀ docs', Reads docs' (memberAfter ty docs readonly) ps [m] k) :
    Reads docs (Parser.member ty) (piecesIf readonly [word .readonly] ++ ps) [m] k := by
  refine bind_nil hdocs (bind_nil (check _) (bind_nil isModifier ?_))
  rw [hlook]
  cases readonly with
  | true => exact bind_token skip (h [])
  | false => exact h docs

/-- An index signature is read back as a member. -/
theorem memberAfter_index {i : IndexSignature Ty} (hi : i.Fits)
    (h : ∀ u, .type u ∈ i.parts → u.Read ty) (hk : kindAt k 0 ≠ .punct .comma) :
    Reads docs (memberAfter ty i.docs i.readonly) (mark .lbracket :: .token (wordKind i.key) ::
      mark .colon :: (i.keyType.pieces ++ mark .rbracket :: mark .colon ::
      (i.value.pieces ++ [mark .semicolon]))) [.index i] k := by
  have hkey : (wordKind i.key).isIdentLike = true := (Bool.and_eq_true_iff.1 hi.key).2
  exact bind_nil (atIndexSignature_true hkey) (indexSignature hi h hk).map

/-- A call signature is read back as a member. -/
theorem memberAfter_call {c : Callable Ty} (readonly : Bool) (hc : c.Fits)
    (h : ∀ u, .type u ∈ c.parts → u.Read ty) (hk : kindAt k 0 ≠ .punct .comma) :
    Reads docs (memberAfter ty c.docs readonly) c.pieces [.call c] k := by
  have hstart := callable_start c k
  have hindex : indexAhead (c.pieces ++ k) = false := by
    rcases hstart with hstart | hstart <;> rw [indexAhead, hstart] <;> rfl
  refine bind_nil (hindex ▸ atIndexSignature) (bind_nil (check _) (bind_nil (check _) ?_))
  rw [if_pos]
  · exact (callable hc h hk).map
  · rcases hstart with hstart | hstart <;> rw [hstart] <;> rfl

/-- A construct signature is read back as a member. It has no `this`, as reading would drop it. -/
theorem memberAfter_construct {c : Callable Ty} (readonly : Bool) (hc : c.Fits)
    (hthis : c.signature.thisType = none)
    (h : ∀ u, .type u ∈ c.parts → u.Read ty) (hk : kindAt k 0 ≠ .punct .comma) :
    Reads docs (memberAfter ty c.docs readonly) (word .new :: c.pieces) [.construct c] k := by
  have hstart := callable_start c k
  refine bind_nil atIndexSignature (bind_nil (check_other nofun) (bind_nil (check_other nofun) ?_))
  refine bind_nil (check _) (bind_nil (peekAt 1) (bind_nil (peekAt 1) ?_))
  rw [if_pos]
  · have hself : c = ⟨c.docs, { c.signature with thisType := none }, c.returns⟩ := by
      rw [← hthis]
    have hread := (callable hc h hk : Reads [] _ _ c k).map (g := fun c : Callable Ty =>
      [Member.construct ⟨c.docs, { c.signature with thisType := none }, c.returns⟩])
    rw [← hself] at hread
    exact bind_token skip hread
  · show ((kindAt (c.pieces ++ k) 0 == .punct .lparen ||
      kindAt (c.pieces ++ k) 0 == .punct .langle) = true)
    rcases hstart with hstart | hstart <;> rw [hstart] <;> rfl

/-- A member with a name is told by what it is not. -/
theorem memberAfter_named {readonly : Bool} {d : Docs} (hindex : indexAhead (ps ++ k) = false)
    (hbracket : kindAt (ps ++ k) 0 ≠ .punct .lparen ∧ kindAt (ps ++ k) 0 ≠ .punct .langle)
    (hnew : kindAt (ps ++ k) 0 = .keyword .new → kindAt (ps ++ k) 1 ≠ .punct .lparen ∧
      kindAt (ps ++ k) 1 ≠ .punct .langle)
    (h : Reads docs (Parser.namedMember ty d readonly) ps [m] k) :
    Reads docs (memberAfter ty d readonly) ps [m] k := by
  refine bind_nil (hindex ▸ atIndexSignature) ?_
  refine bind_nil (check_other hbracket.1) (bind_nil (check_other hbracket.2) ?_)
  refine bind_nil (check _) (bind_nil (peekAt 1) (bind_nil (peekAt 1) ?_))
  rw [if_neg]
  · exact h
  · intro heq
    simp only [Bool.and_eq_true, Bool.or_eq_true, beq_iff_eq] at heq
    obtain ⟨hlparen, hlangle⟩ := hnew heq.1
    exact heq.2.elim hlparen hlangle

/-- A property is read back, `readonly` or not. -/
theorem member_property {p : Property Ty} (hname : IsMemberName p.name)
    (hrank : 1 ≤ p.type.rank) (htype : p.type.Read ty) (hk : kindAt k 0 ≠ .punct .comma) :
    Reads p.docs (Parser.member ty) (Member.property p).body [.property p] k := by
  have hahead := property_ahead (k := k) hname
  refine member_of p.readonly ?_ ?_ fun docs' => memberAfter_named
    hahead.indexAhead_eq_false ?_ ?_ (namedMember_property hname hrank htype hk)
  · cases p.readonly with
    | true => exact docs_token
    | false => exact docs_name hname.property
  · cases p.readonly with
    | true => exact modifies_of_startsPropertyName hahead.starts
    | false => exact hahead.not_modifier .readonly
  · exact hahead.not_bracket
  · intro hnew
    rw [show kindAt (_ ++ k) 1 = _ from hahead.kindAt_one hnew nofun]
    cases p.optional <;> exact ⟨nofun, nofun⟩

/-- A method is read back. One that is no accessor and has the name `new` would be taken for a
construct signature unless it is optional. -/
theorem member_method {m : Method Ty} (hname : IsMemberName m.name)
    (hcallable : Callable.Fits ⟨m.docs, m.signature, m.returns⟩)
    (hnew : m.name = "new" → m.kind = .method → m.optional = true)
    (h : ∀ u, .type u ∈ (Member.method m).parts → u.Read ty) (hk : kindAt k 0 ≠ .punct .comma) :
    Reads m.docs (Parser.member ty) (Member.method m).body [.method m] k := by
  have hahead := method_ahead (k := k) hname
  have hbody : (Member.method m).body = piecesIf false [word .readonly] ++ (m.kind.pieces ++
      ([name m.name] ++ (piecesIf m.optional [mark .question] ++
      Callable.pieces ⟨m.docs, m.signature, m.returns⟩))) := rfl
  rw [hbody]
  refine member_of _ ?_ ?_ fun docs' => memberAfter_named ?_ ?_ ?_
    (namedMember_method hname false hcallable h hk)
  · cases m.kind with
    | method => exact docs_name hname.property
    | get | set => exact docs_token
  · cases m.kind with
    | method => exact hahead.not_modifier .readonly
    | get | set => rfl
  · cases m.kind with
    | method => exact hahead.indexAhead_eq_false
    | get | set => rfl
  · cases m.kind with
    | method => exact hahead.not_bracket
    | get | set => exact ⟨nofun, nofun⟩
  · cases hkind : m.kind with
    | method =>
      intro hfirst
      -- Without a question mark, a method with this name would be a construct signature.
      have hoptional := hnew (hname.property.eq_text hfirst) hkind
      rw [show kindAt (_ ++ k) 1 = _ from hahead.kindAt_one hfirst nofun, hoptional]
      exact ⟨nofun, nofun⟩
    | get | set => exact nofun

/-- A call signature is read back with its comments. -/
theorem member_call {c : Callable Ty} (hc : c.Fits) (h : ∀ u, .type u ∈ c.parts → u.Read ty)
    (hk : kindAt k 0 ≠ .punct .comma) :
    Reads c.docs (Parser.member ty) (Member.call c).body [.call c] k := by
  have hread (docs' : Docs) := (memberAfter_call false hc h hk :
    Reads docs' _ _ [Member.call c] k)
  show Reads c.docs (Parser.member ty) (piecesIf false [word .readonly] ++ c.pieces) _ k
  refine member_of _ ?_ ?_ hread
  · show Reads c.docs Parser.docs [] c.docs (c.pieces ++ k)
    rw [Callable.pieces, List.append_assoc]
    exact docs_signature c.signature
  · show (kindAt (c.pieces ++ k) 0 == .keyword .readonly && _) = false
    rcases callable_start c k with hstart | hstart <;> rw [hstart] <;> rfl

/-- An index signature is read back with its comments, `readonly` or not. -/
theorem member_index {i : IndexSignature Ty} (hi : i.Fits)
    (h : ∀ u, .type u ∈ i.parts → u.Read ty) (hk : kindAt k 0 ≠ .punct .comma) :
    Reads i.docs (Parser.member ty) (Member.index i).body [.index i] k := by
  have hread (docs' : Docs) := (memberAfter_index hi h hk : Reads docs' _ _ [Member.index i] k)
  show Reads i.docs (Parser.member ty) (piecesIf i.readonly [word .readonly] ++ _) _ k
  refine member_of _ ?_ ?_ hread
  · cases i.readonly <;> exact docs_token
  · cases i.readonly <;> rfl

/-- A member of an interface or an object type. -/
theorem member (hm : m.Fits) (h : ∀ u, .type u ∈ m.parts → u.Read ty)
    (hk : kindAt k 0 ≠ .punct .comma) : Reads [] (Parser.member ty) m.pieces [m] k := by
  refine docs_append ?_
  rw [List.nil_append]
  cases hm with
  | property _ hname hrank =>
    exact member_property hname hrank (Part.forall_singleton.1 h) hk
  | method hname hcallable hnew => exact member_method hname hcallable hnew h hk
  | call hc => exact member_call hc h hk
  | construct hc hthis =>
    exact member_of false docs_token rfl fun docs' => memberAfter_construct false hc hthis h hk
  | index hi => exact member_index hi h hk

/-! ### All members -/

/-- A member begins with a token that no list of members ends with. -/
theorem member_start (hm : m.Fits) (k : List Piece) :
    (kindAt (m.pieces ++ k) 0).startsPropertyName = true ∨
      kindAt (m.pieces ++ k) 0 = .punct .langle ∨ kindAt (m.pieces ++ k) 0 = .punct .lparen := by
  rw [Member.pieces, List.append_assoc, kindAt_docs]
  cases hm with
  | @property p docs hname =>
    rw [Member.body]
    cases p.readonly with
    | true => exact .inl rfl
    | false => exact .inl (property_ahead hname).starts
  | @method d hname hcallable hnew =>
    rw [Member.body]
    cases d.kind with
    | method => exact .inl (method_ahead hname).starts
    | get | set => exact .inl rfl
  | @call c => exact .inr (callable_start c k)
  | construct => exact .inl rfl
  | @index i =>
    rw [Member.body, IndexSignature.pieces]
    cases i.readonly <;> exact .inl rfl

/-- Behind a member no comments wait. -/
theorem docsAfter_member (m : Member Ty) (docs : Docs) : docsAfter docs m.pieces = [] := by
  cases m <;> simp [Member.pieces, Member.body, Callable.pieces, IndexSignature.pieces]

/-- Members in braces. -/
theorem members {ms : List (Member Ty)} (hms : ∀ m ∈ ms, m.Fits)
    (h : ∀ m ∈ ms, ∀ u, .type u ∈ m.parts → u.Read ty) :
    Reads docs (Parser.members ty) (mark .lbrace :: (Ty.piecesMembers ms ++ [mark .rbrace]))
      ms k := by
  rw [Ty.piecesMembers_eq]
  have hstart {m : Member Ty} (hm : m ∈ ms) {kind : Kind} (k : List Piece)
      (hkind : kind = .punct .comma ∨ kind = .punct .rbrace ∨ kind = .eof) :
      kindAt (m.pieces ++ k) 0 ≠ kind := by
    rintro rfl
    rcases member_start (hms m hm) k with hfirst | hfirst | hfirst <;>
      rcases hkind with hkind | hkind | hkind <;> rw [hkind] at hfirst <;> cases hfirst
  refine bind_token expect (bind (manyUntil (C := fun k => kindAt k 0 ≠ .punct .comma) nofun
    (fun m hm k => ⟨hstart hm k (.inr (.inl rfl)), hstart hm k (.inr (.inr rfl))⟩) ?_)
    (bind_token expect (pure ms)))
  exact fun m hm k hk =>
    ⟨member (hms m hm) (h m hm) hk, docsAfter_member m [], hstart hm k (.inl rfl)⟩

end Reads

end Parser

end DeclLayer
