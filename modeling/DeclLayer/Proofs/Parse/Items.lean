import DeclLayer.Proofs.Parse.ClassMembers

/-!
# Reading statements

A canonical statement is read back from its pieces (`Item.read`), whatever follows it: each
statement ends with a mark of its own. The parsers for single declarations come first, one theorem
each; then the modifiers, which decide whether an export is a declaration; then blocks, where the
statements inside are read with one level of nesting less.
-/

namespace DeclLayer

open Token DeclLayer.Parser Literal

namespace Parser

variable {docs : Docs} {k : List Piece}

namespace Reads

/-! ## Declarations -/

/-- Canonical type parameters are read back. -/
theorem typeParams_canonical {ps : List (TypeParam Ty)} (h : ∀ p ∈ ps, p.Canonical)
    (hk : kindAt k 0 ≠ .punct .langle) :
    Reads docs (Parser.typeParams Parser.type) (angledBy (Ty.piecesTypeParams ps)) ps k :=
  typeParams (fun p hp => (h p hp).fits) (fun p hp u hu => u.read_type ((h p hp).types u hu)) hk

/-- A type that may be missing, after the token that leads to it. -/
theorem afterType_canonical {lead : Kind} {t : Option Ty} (h : ∀ u ∈ t, u.Canonical ∧ 1 ≤ u.rank)
    (hk : endsType (kindAt k 0) = true) (hlead : kindAt k 0 ≠ lead) :
    Reads docs (Parser.after lead Parser.type) (Ty.piecesAfter lead t) t k :=
  afterType (fun u hu => ⟨u.read_type (h u hu).1, (h u hu).2⟩) hk hlead

/-- The types behind `extends` or `implements` are read back in front of a body. -/
theorem typesAfter {lead : Keyword} {ts : List Ty} (h : ∀ u ∈ ts, u.Canonical ∧ 1 ≤ u.rank) :
    Reads docs (Parser.typesAfter lead) (Ty.piecesBases lead ts) ts (mark .lbrace :: k) := by
  cases ts with
  | nil =>
    have hnone : Reads docs (Parser.after (.keyword lead) (Parser.separated .comma Parser.type)) []
        none (mark .lbrace :: k) := after_other nofun
    exact hnone.map (g := fun ts : Option (List Ty) => ts.getD [])
  | cons t ts =>
    have hlist : Reads [] (Parser.separated .comma Parser.type)
        (separatedBy .comma (Ty.piecesList (t :: ts))) (t :: ts) (mark .lbrace :: k) :=
      typeList (List.cons_ne_nil t ts) (fun u hu => ⟨u.read_type (h u hu).1, (h u hu).2⟩) rfl nofun
    exact (after hlist).map (g := fun ts : Option (List Ty) => ts.getD [])

/-- What can follow the name and the type parameters of an interface or a class. -/
theorem piecesBases_start (lead : Keyword) (ts : List Ty) (k : List Piece) :
    kindAt (Ty.piecesBases lead ts ++ mark .lbrace :: k) 0 = .keyword lead ∨
      kindAt (Ty.piecesBases lead ts ++ mark .lbrace :: k) 0 = .punct .lbrace := by
  cases ts with
  | nil => exact .inr rfl
  | cons t ts => exact .inl rfl

/-- A function is read back. -/
theorem functionDecl {d : FunctionDecl} (hname : isIdent d.name = true)
    (h : Callable.Canonical ⟨d.docs, d.signature, d.returns⟩) :
    Reads docs (Parser.functionDecl d.docs d.modifiers) d.body d k := by
  have hread : ∀ u, .type u ∈ Callable.parts ⟨d.docs, d.signature, d.returns⟩ →
      u.Read Parser.type := fun u hu => u.read_type (h.types u hu)
  obtain ⟨hsignature, hreturned⟩ := Callable.forall_parts.1 hread
  have hreturns : ∀ u ∈ d.returns, u.Read Parser.type ∧ u.FitsReturn := fun u hu =>
    ⟨hreturned u hu, h.fits.returns u hu⟩
  refine bind_token expect (bind_token (identifier (Bool.and_eq_true_iff.1 hname).2) ?_)
  refine bind (signature h.fits.signature hsignature) ?_
  exact bind (annotatedReturn hreturns rfl (by rintro ⟨⟩)) skipSemicolon.map

/-- An interface is read back. -/
theorem interfaceDecl {d : InterfaceDecl} (hname : isIdent d.name = true)
    (htypeParams : ∀ p ∈ d.typeParams, p.Canonical)
    (hbases : ∀ t ∈ d.bases, t.Canonical ∧ 1 ≤ t.rank) (hmembers : ∀ m ∈ d.members, m.Canonical) :
    Reads docs (Parser.interfaceDecl d.docs d.modifiers) d.body d k := by
  refine bind_token expect (bind_token (identifier (Bool.and_eq_true_iff.1 hname).2) ?_)
  refine bind (typeParams_canonical htypeParams ?_) ?_
  · rw [List.append_assoc]
    rcases piecesBases_start .extendsKw d.bases _ with h | h <;> rw [List.cons_append, h] <;> nofun
  · refine bind (typesAfter hbases) (members (fun m hm => (hmembers m hm).fits) ?_).map
    exact fun m hm u hu => u.read_type ((hmembers m hm).types u hu)

/-- A type alias is read back. -/
theorem aliasDecl {d : AliasDecl} (hname : isIdent d.name = true)
    (htypeParams : ∀ p ∈ d.typeParams, p.Canonical) (htype : d.type.Canonical)
    (hrank : 1 ≤ d.type.rank) : Reads docs (Parser.aliasDecl d.docs d.modifiers) d.body d k := by
  refine bind_token expect (bind_token (identifier (Bool.and_eq_true_iff.1 hname).2) ?_)
  refine bind (typeParams_canonical htypeParams nofun) (bind_token expect ?_)
  exact bind ((d.type.read_type htype).ends hrank rfl) skipSemicolon.map

/-- A class is read back from the word `class` on. -/
theorem classDecl {d : ClassDecl} (hname : isIdent d.name = true)
    (htypeParams : ∀ p ∈ d.typeParams, p.Canonical) (hbase : ∀ t ∈ d.base, t.Canonical ∧ 1 ≤ t.rank)
    (hinterfaces : ∀ t ∈ d.interfaces, t.Canonical ∧ 1 ≤ t.rank)
    (hmembers : ∀ m ∈ d.members, m.Canonical) :
    Reads docs (Parser.classDecl d.docs d.modifiers d.isAbstract) (word .classKw ::
      .token (wordKind d.name) :: (angledBy (Ty.piecesTypeParams d.typeParams) ++
      (Ty.piecesAfter (.keyword .extendsKw) d.base ++ (Ty.piecesBases .implements d.interfaces ++
      mark .lbrace :: (d.members.flatMap ClassMember.pieces ++ [mark .rbrace]))))) d k := by
  have hafter : endsType (kindAt (Ty.piecesBases .implements d.interfaces ++ mark .lbrace ::
        (d.members.flatMap ClassMember.pieces ++ [mark .rbrace] ++ k)) 0) = true ∧
      kindAt (Ty.piecesBases .implements d.interfaces ++ mark .lbrace ::
        (d.members.flatMap ClassMember.pieces ++ [mark .rbrace] ++ k)) 0 ≠ .keyword .extendsKw ∧
      kindAt (Ty.piecesBases .implements d.interfaces ++ mark .lbrace ::
        (d.members.flatMap ClassMember.pieces ++ [mark .rbrace] ++ k)) 0 ≠ .punct .langle := by
    rcases piecesBases_start .implements d.interfaces _ with h | h <;> rw [h] <;>
      exact ⟨rfl, nofun, nofun⟩
  rw [← List.cons_append, ← List.append_assoc] at hafter
  refine bind_token expect (bind_token (identifier (Bool.and_eq_true_iff.1 hname).2) ?_)
  refine bind (typeParams_canonical htypeParams ?_) ?_
  · cases d.base with
    | none => exact hafter.2.2
    | some t => exact nofun
  · refine bind (afterType_canonical hbase hafter.1 hafter.2.1) (bind (typesAfter hinterfaces) ?_)
    exact bind_token expect (bind (classMembers hmembers) (bind_token expect (pure d)))

/-- An initializer is read back in front of what ends one, or none where no equals sign stands. -/
theorem optionalInitializer {init : Option String} (h : ∀ text ∈ init, IsInitializer text)
    (hk : endsInitializer (kindAt k 0) = true) :
    Reads docs Parser.optionalInitializer (initializerPieces init) init k := by
  refine after_option (fun text htext => initializer (h text htext) hk) fun _ heq => ?_
  rw [heq] at hk
  cases hk

/-- A variable statement with one variable is read back. -/
theorem variableDecls {d : VariableDecl} (hname : IsPropertyName d.name)
    (htype : ∀ t ∈ d.type, t.Canonical ∧ 1 ≤ t.rank)
    (hinitializer : ∀ text ∈ d.initializer, IsInitializer text) :
    Reads docs (Parser.variableDecls d.docs d.modifiers d.kind) d.body [d] k := by
  have hafter : endsType (kindAt (initializerPieces d.initializer ++ mark .semicolon :: k) 0)
    = true ∧
      kindAt (initializerPieces d.initializer ++ mark .semicolon :: k) 0 ≠ .punct .colon := by
    cases d.initializer with
    | none => exact ⟨rfl, nofun⟩
    | some text => exact ⟨rfl, nofun⟩
  have hdecl (docs : Docs) : Reads docs (Parser.variableDecl d.modifiers d.kind) ([name d.name] ++
      (Ty.piecesAfter (.punct .colon) d.type ++ initializerPieces d.initializer))
      { d with docs := [] } (mark .semicolon :: k) :=
    bind (propertyName hname) (bind (afterType_canonical htype hafter.1 hafter.2)
      (optionalInitializer hinitializer rfl).map)
  have hvars : Reads [] (Parser.separated .comma (Parser.variableDecl d.modifiers d.kind))
      (separatedBy .comma ([{ d with docs := [] }].map fun _ : VariableDecl => [name d.name] ++
        (Ty.piecesAfter (.punct .colon) d.type ++ initializerPieces d.initializer)))
      [{ d with docs := [] }] (mark .semicolon :: k) := by
    refine separated (List.cons_ne_nil _ _) nofun nofun ?_
    rintro v ⟨⟩ docs
    exact hdecl docs
  have hbody : d.body = word d.kind.keyword :: (separatedBy .comma [[name d.name] ++
      (Ty.piecesAfter (.punct .colon) d.type ++ initializerPieces d.initializer)] ++
      [mark .semicolon]) := by
    simp only [VariableDecl.body, separatedBy, List.flatMap_nil, List.append_nil, List.append_assoc,
      List.cons_append, List.nil_append]
  rw [hbody]
  exact bind_token skip (bind hvars skipSemicolon.map)

/-- An enum member is read back in front of a comma or the closing brace. -/
theorem enumMember {m : EnumMember} (h : m.Fits)
    (hk : kindAt k 0 = .punct .comma ∨ kindAt k 0 = .punct .rbrace) :
    Reads [] Parser.enumMember m.pieces m k := by
  have hend : endsInitializer (kindAt k 0) = true := by
    rcases hk with hk | hk <;> rw [hk] <;> rfl
  refine docs_append (bind_nil (docs_name h.name) ?_)
  show Reads _ _ ([name m.name] ++ initializerPieces m.initializer) m k
  exact bind (propertyName h.name) (optionalInitializer h.initializer hend).map

/-- An enum is read back from the word `enum` on. -/
theorem enumDecl {d : EnumDecl} (hname : isIdent d.name = true)
    (hmembers : ∀ m ∈ d.members, m.Fits) :
    Reads docs (Parser.enumDecl d.docs d.modifiers d.isConst) (word .enum ::
      .token (wordKind d.name) :: mark .lbrace ::
      (separatedBy .comma (d.members.map EnumMember.pieces) ++ [mark .rbrace])) d k := by
  refine bind_token expect (bind_token (identifier (Bool.and_eq_true_iff.1 hname).2) ?_)
  refine bind_token expect (bind (list .rbrace nofun
    (fun m hm k hk => enumMember (hmembers m hm) hk) ?_) (bind_token expect (pure d)))
  intro m hm k
  have hstarts := (hmembers m hm).name.starts (k := initializerPieces m.initializer ++ k)
  rw [EnumMember.pieces, List.append_assoc, kindAt_docs]
  constructor
  · exact fun heq => by cases hstarts.symm.trans (congrArg Kind.startsPropertyName heq)
  · exact fun heq => by cases hstarts.symm.trans (congrArg Kind.startsPropertyName heq)

/-- The names of an export list are read back. -/
theorem exportedNames {names : List (String × Option String)}
    (h : ∀ name ∈ names, isIdent name.1 = true ∧ ∀ shown ∈ name.2, isIdent shown = true) :
    Reads docs Parser.exportedNames (mark .lbrace :: (separatedBy .comma
      (names.map Export.namePieces) ++ [mark .rbrace, mark .semicolon])) names k := by
  refine bind_token expect (bind (list .rbrace nofun (fun name hname k hk => ?_) ?_)
    (bind_token expect (skipSemicolon.map)))
  · obtain ⟨hident, hshown⟩ := h name hname
    refine bind_token (identifier (Bool.and_eq_true_iff.1 hident).2) ?_
    refine (after_option (fun shown hmem => ?_) fun _ heq => ?_).map
    · exact identifier (Bool.and_eq_true_iff.1 (hshown shown hmem)).2
    · rcases hk with hk | hk <;> cases hk.symm.trans heq
  · intro name hname k
    have hident := (Bool.and_eq_true_iff.1 (h name hname).1).2
    show wordKind name.1 ≠ _ ∧ wordKind name.1 ≠ _
    constructor
    · intro heq
      rw [heq] at hident
      cases hident
    · intro heq
      rw [heq] at hident
      cases hident

/-! ## Modifiers -/

/-- Whether a token can begin a declaration: it goes on neither with the modifiers nor with an
export that is no declaration. -/
def startsDeclaration (kind : Kind) : Bool :=
  kind != .keyword .exportKw && kind != .keyword .declare && kind != .punct .eq &&
    kind != .keyword .default && kind != .keyword .asKw

/-- The modifiers end in front of what is no modifier. -/
theorem modifiersFor_stop (hk : kindAt k 0 ≠ .keyword .exportKw ∧ kindAt k 0 ≠ .keyword .declare)
    (m : Modifiers) (n : Nat) : Reads docs (Parser.modifiersFor m (n + 1)) [] m k := by
  refine bind_nil peek ?_
  rw [List.nil_append]
  split
  · next heq => exact absurd heq hk.1
  · next heq => exact absurd heq hk.2
  · exact pure m

/-- The modifiers of a statement are read back in front of what is no modifier. -/
theorem modifiersFor (hk : kindAt k 0 ≠ .keyword .exportKw ∧ kindAt k 0 ≠ .keyword .declare)
    (m : Modifiers) {n : Nat} (hn : (kinds m.pieces).length < n) :
    Reads docs (Parser.modifiersFor .plain n) m.pieces m k := by
  obtain ⟨n, rfl⟩ := Nat.exists_eq_succ_of_ne_zero (Nat.ne_of_gt (Nat.zero_lt_of_lt hn))
  obtain ⟨exported, declared⟩ := m
  cases exported with
  | false =>
    cases declared with
    | false => exact modifiersFor_stop hk .plain n
    | true =>
      obtain ⟨n, rfl⟩ := Nat.exists_eq_succ_of_ne_zero (Nat.ne_of_gt (Nat.lt_of_succ_lt_succ hn))
      exact bind_nil peek (bind_token skip (modifiersFor_stop hk ⟨false, true⟩ n))
  | true =>
    cases declared with
    | false =>
      obtain ⟨n, rfl⟩ := Nat.exists_eq_succ_of_ne_zero (Nat.ne_of_gt (Nat.lt_of_succ_lt_succ hn))
      exact bind_nil peek (bind_token skip (modifiersFor_stop hk ⟨true, false⟩ n))
    | true =>
      have hn' := Nat.lt_of_succ_lt_succ hn
      obtain ⟨n, rfl⟩ := Nat.exists_eq_succ_of_ne_zero (Nat.ne_of_gt (Nat.zero_lt_of_lt hn'))
      obtain ⟨n, rfl⟩ := Nat.exists_eq_succ_of_ne_zero (Nat.ne_of_gt (Nat.lt_of_succ_lt_succ hn'))
      exact bind_nil peek (bind_token skip (bind_nil peek (bind_token skip
        (modifiersFor_stop hk ⟨true, true⟩ n))))

/-- What begins a declaration is no export of another sort. -/
theorem plainExport_none {kind : Kind} (hkind : startsDeclaration kind = true) :
    Reads docs Parser.plainExport [] none (.token kind :: k) := by
  simp only [startsDeclaration, Bool.and_eq_true, bne_iff_ne] at hkind
  obtain ⟨⟨⟨⟨-, -⟩, heq⟩, hdefault⟩, has⟩ := hkind
  refine bind_nil (accept_other heq) (bind_nil (check_other hdefault) (bind_nil (peekAt 1) ?_))
  exact bind_nil (check_other has) (pure none)

variable {items : Parser (List Item)} {item : Item}

/-- Pieces that begin a declaration. -/
def IsDeclaration (ps : List Piece) : Prop :=
  ∃ kind rest, ps = .token kind :: rest ∧ startsDeclaration kind = true

/-- A declaration after its modifiers. -/
theorem itemsWith {modifiers : Modifiers} {ps : List Piece} (hps : IsDeclaration ps)
    (h : ∀ docs', Reads docs' (Parser.declaration items docs modifiers) ps [item] k) :
    Reads docs (Parser.itemsWith items) (modifiers.pieces ++ ps) [item] k := by
  obtain ⟨kind, rest, rfl, hkind⟩ := hps
  have hstart := hkind
  simp only [startsDeclaration, Bool.and_eq_true, bne_iff_ne] at hstart
  obtain ⟨⟨⟨⟨hexport, hdeclare⟩, -⟩, -⟩, -⟩ := hstart
  have hdocs : Reads docs Parser.docs [] docs (modifiers.pieces ++ .token kind :: rest ++ k) := by
    obtain ⟨exported, declared⟩ := modifiers
    cases exported <;> cases declared <;> exact docs_token
  refine bind_nil hdocs (bind_nil turns (bind (modifiersFor (k := .token kind :: rest ++ k)
    ⟨hexport, hdeclare⟩ modifiers ?_) ?_))
  · simp only [kinds_append, List.length_append]
    omega
  · cases modifiers.exported with
    | true => exact bind_nil (plainExport_none hkind) (h _)
    | false => exact bind_nil (pure none) (h _)

/-- An export that is no declaration. -/
theorem itemsWith_exports {e : Export} (h : e.Fits) :
    Reads docs (Parser.itemsWith items) (word .exportKw :: e.body) [.exports e] k := by
  have hkind : kindAt (e.body ++ k) 0 ≠ .keyword .exportKw ∧
      kindAt (e.body ++ k) 0 ≠ .keyword .declare := by
    cases e <;> exact ⟨nofun, nofun⟩
  refine bind_nil docs_token (bind_nil turns (bind_token
    (modifiersFor hkind .exportedOnly ?_) ?_))
  · simp only [kinds_token, List.cons_append, List.length_cons]
    show 1 < _
    omega
  · cases e with
    | equals name =>
      refine bind_end (a := some [.exports (.equals name)]) ?_ (pure _)
      exact bind_token accept (bind_token (identifier (Bool.and_eq_true_iff.1 h).2)
        skipSemicolon.map)
    | default name =>
      have hident : (wordKind name).isIdentLike = true := (Bool.and_eq_true_iff.1 h).2
      refine bind_end (a := some [.exports (.default name)]) ?_ (pure _)
      refine bind_nil (accept_other nofun) (bind_nil (check _) (bind_nil (peekAt 1) ?_))
      rw [if_pos]
      · exact bind_token skip (bind_token (identifier hident) skipSemicolon.map)
      · exact hident
    | named names =>
      refine bind_nil (plainExport_none rfl) (bind_nil peek ?_)
      exact (exportedNames h).map

/-! ## Single declarations -/

/-- A class is read back as a declaration, abstract or not. -/
theorem declaration_class {d : ClassDecl} (hname : isIdent d.name = true)
    (htypeParams : ∀ p ∈ d.typeParams, p.Canonical) (hbase : ∀ t ∈ d.base, t.Canonical ∧ 1 ≤ t.rank)
    (hinterfaces : ∀ t ∈ d.interfaces, t.Canonical ∧ 1 ≤ t.rank)
    (hmembers : ∀ m ∈ d.members, m.Canonical) :
    Reads docs (Parser.declaration items d.docs d.modifiers) d.body [.cls d] k := by
  have hread (docs : Docs) :=
    (classDecl hname htypeParams hbase hinterfaces hmembers : Reads docs _ _ d k)
  rw [ClassDecl.body]
  cases habstract : d.isAbstract with
  | true =>
    rw [habstract] at hread
    exact bind_nil peek (bind_token skip (bind_nil (check _) (hread []).map))
  | false =>
    rw [habstract] at hread
    exact bind_nil peek (hread docs).map

/-- An enum is read back as a declaration, `const` or not. -/
theorem declaration_enum {d : EnumDecl} (hname : isIdent d.name = true)
    (hmembers : ∀ m ∈ d.members, m.Fits) :
    Reads docs (Parser.declaration items d.docs d.modifiers) d.body [.enum d] k := by
  have hread (docs : Docs) := (enumDecl hname hmembers : Reads docs _ _ d k)
  rw [EnumDecl.body]
  cases hconst : d.isConst with
  | true =>
    rw [hconst] at hread
    exact bind_nil peek (bind_nil (peekAt 1) (bind_token skip (hread []).map))
  | false =>
    rw [hconst] at hread
    exact bind_nil peek (hread docs).map

/-- A variable is read back as a declaration. A constant with the name `enum` would be taken for an
enum. -/
theorem declaration_var {d : VariableDecl} (hname : IsPropertyName d.name)
    (henum : d.kind = .constant → d.name ≠ "enum") (htype : ∀ t ∈ d.type, t.Canonical ∧ 1 ≤ t.rank)
    (hinitializer : ∀ text ∈ d.initializer, IsInitializer text) :
    Reads docs (Parser.declaration items d.docs d.modifiers) d.body [.var d] k := by
  have hread := (variableDecls hname htype hinitializer : Reads docs _ _ [d] k)
  refine bind_nil peek ?_
  cases hkind : d.kind with
  | constant =>
    rw [VariableDecl.body, hkind] at hread ⊢
    refine bind_nil (peekAt 1) ?_
    rw [if_neg]
    · exact hread.map
    · intro heq
      exact henum hkind (hname.eq_text (beq_iff_eq.1 heq))
  | block | function =>
    rw [VariableDecl.body, hkind] at hread ⊢
    exact hread.map

/-! ## Blocks -/

/-- The statements of a block, given that each of them is read. -/
theorem body {found : List Item} (hstart : ∀ item ∈ found, ∀ k,
      kindAt (item.pieces ++ k) 0 ≠ .punct .rbrace ∧ kindAt (item.pieces ++ k) 0 ≠ .eof)
    (hdocs : ∀ item ∈ found, docsAfter [] item.pieces = [])
    (h : ∀ item ∈ found, ∀ k, Reads [] items item.pieces [item] k) :
    Reads [] (Parser.body items) (Item.piecesList found ++ [mark .rbrace]) found k := by
  rw [Item.piecesList_eq]
  exact bind (manyUntil (C := fun _ => True) trivial hstart fun item hitem k _ =>
    ⟨h item hitem k, hdocs item hitem, trivial⟩) (bind_token expect (pure found))

/-- A namespace is read back from its name on, if its body is. -/
theorem namespaceBlock {b : Block Item} (hname : ∀ w ∈ nameWords b.name, isIdent w = true)
    (h : Reads [] (Parser.body items) (Item.piecesList b.items ++ [mark .rbrace]) b.items k) :
    Reads docs (Parser.namespaceBlock items b.docs b.modifiers) (dotted b.name ++ mark .lbrace ::
      (Item.piecesList b.items ++ [mark .rbrace])) b k := by
  have hidentifier (w : String) (hw : w ∈ nameWords b.name) (docs : Docs) (k : List Piece) :
      Reads docs Parser.identifier [.token (wordKind w)] w k :=
    identifier (Bool.and_eq_true_iff.1 (hname w hw)).2
  have hwords : Reads docs (Parser.separated .dot Parser.identifier) (dotted b.name)
      (nameWords b.name) (mark .lbrace :: (Item.piecesList b.items ++ [mark .rbrace] ++ k)) :=
    separated (nameWords_ne_nil b.name) nofun
      (fun w hw docs k => hidentifier w (List.dropLast_subset _ hw) docs _)
      fun w hw docs => hidentifier w (List.mem_of_getLast? hw) docs _
  refine bind hwords (bind_token expect (bind_end h ?_))
  rw [joinWith_nameWords]
  exact pure b

/-- Only the global scope has no keyword. -/
theorem namespaceHead_cases (name : String) :
    namespaceHead name = word .namespaceKw :: dotted name ∨
      namespaceHead name = [.token (.ident "global")] ∧
        dotted name = [.token (.ident "global")] := by
  rw [namespaceHead]
  cases hglobal : name != "global" with
  | true => exact .inl rfl
  | false =>
    rw [bne_eq_false_iff_eq.1 hglobal]
    exact .inr ⟨rfl, rfl⟩

/-- A namespace is read back as a declaration, `global` among them. -/
theorem declaration_space {b : Block Item} (hname : ∀ w ∈ nameWords b.name, isIdent w = true)
    (h : Reads [] (Parser.body items) (Item.piecesList b.items ++ [mark .rbrace]) b.items k) :
    Reads docs (Parser.declaration items b.docs b.modifiers)
      (namespaceHead b.name ++ mark .lbrace :: (Item.piecesList b.items ++ [mark .rbrace]))
      [.space b] k := by
  have hread (docs : Docs) := (namespaceBlock hname h : Reads docs _ _ b k)
  refine bind_nil peek ?_
  rcases namespaceHead_cases b.name with hhead | ⟨hhead, hdotted⟩
  · rw [hhead]
    exact bind_token skip (hread []).map
  · have hblock := (hread docs).map (g := fun b => [Item.space b])
    rw [hdotted] at hblock
    rw [hhead]
    exact bind_nil (peekAt 1) hblock

/-- An ambient module is read back as a declaration. -/
theorem declaration_ambient {b : Block Item}
    (h : Reads [] (Parser.body items) (Item.piecesList b.items ++ [mark .rbrace]) b.items k) :
    Reads docs (Parser.declaration items b.docs b.modifiers) (word .moduleKw ::
      .token (.string b.name) :: mark .lbrace :: (Item.piecesList b.items ++ [mark .rbrace]))
      [.ambient b] k := by
  refine bind_nil peek (bind_token skip (bind_nil peek (map (g := fun b => [Item.ambient b]) ?_)))
  exact bind_token skip (bind_token accept h.map)

end Reads

/-! ## All statements -/

/-- A statement begins with a token that is no directive and that no block ends with. -/
def startsItem : Kind → Bool
  | .punct .rbrace | .eof | .directive _ => false
  | _ => true

end Parser

/-- A canonical statement begins with a token that begins one. -/
theorem Item.start {item : Item} (h : item.Canonical) (k : List Piece) :
    startsItem (kindAt (item.pieces ++ k) 0) = true := by
  have hmodifiers (m : Modifiers) {ps : List Piece} (hps : startsItem (kindAt (ps ++ k) 0) = true) :
      startsItem (kindAt (m.pieces ++ ps ++ k) 0) = true := by
    obtain ⟨exported, declared⟩ := m
    cases exported <;> cases declared <;> first | exact hps | rfl
  cases h with
  | @function d | @interface d | @typeAlias d | @var d =>
    rw [Item.pieces, List.append_assoc, kindAt_docs]
    exact hmodifiers d.modifiers rfl
  | @cls d =>
    rw [Item.pieces, List.append_assoc, kindAt_docs]
    refine hmodifiers d.modifiers ?_
    rw [ClassDecl.body]
    cases d.isAbstract <;> rfl
  | @enum d =>
    rw [Item.pieces, List.append_assoc, kindAt_docs]
    refine hmodifiers d.modifiers ?_
    rw [EnumDecl.body]
    cases d.isConst <;> rfl
  | @space b =>
    rw [Item.pieces, List.append_assoc, kindAt_docs]
    refine hmodifiers b.modifiers ?_
    rcases Reads.namespaceHead_cases b.name with hhead | ⟨hhead, -⟩ <;> rw [hhead] <;> rfl
  | @ambient b =>
    rw [Item.pieces, List.append_assoc, kindAt_docs]
    exact hmodifiers b.modifiers rfl
  | exports => rfl

/-- Behind a canonical statement no comments wait. -/
theorem Item.docsAfter_pieces {item : Item} (h : item.Canonical) :
    docsAfter [] item.pieces = [] := by
  cases h with
  | function => simp [Item.pieces, FunctionDecl.body]
  | interface => simp [Item.pieces, InterfaceDecl.body]
  | typeAlias => simp [Item.pieces, AliasDecl.body]
  | cls => simp [Item.pieces, ClassDecl.body]
  | var => simp [Item.pieces, VariableDecl.body]
  | enum => simp [Item.pieces, EnumDecl.body]
  | space => simp [Item.pieces]
  | ambient => simp [Item.pieces]
  | @exports e => cases e <;> simp [Item.pieces, Export.body]

/-- A statement does not begin with what ends a block or a file. -/
theorem Item.start_ne {item : Item} (h : item.Canonical) (kind : Kind)
    (hkind : startsItem kind = false) (k : List Piece) : kindAt (item.pieces ++ k) 0 ≠ kind := by
  rintro rfl
  cases hkind.symm.trans (item.start h k)

/-- A canonical statement has at least one token. -/
theorem Item.kinds_pieces_pos {item : Item} (h : item.Canonical) :
    0 < (kinds item.pieces).length := by
  have hne := item.start_ne h .eof rfl []
  rw [List.append_nil, kindAt] at hne
  refine List.length_pos_iff.2 fun hnil => hne ?_
  rw [hnil]
  rfl

/-- A statement has no more tokens than the statements it is among. -/
theorem Item.kinds_piecesList_le {item : Item} {items : List Item} (h : item ∈ items) :
    (kinds item.pieces).length ≤ (kinds (Item.piecesList items)).length := by
  obtain ⟨before, after, rfl⟩ := List.append_of_mem h
  simp only [Item.piecesList_eq, List.flatMap_append, List.flatMap_cons, kinds_append,
    List.length_append]
  omega

/-- The statements of a block are read with one level of nesting less. -/
theorem Item.read_body {items : List Item} {n : Nat} (h : ∀ item ∈ items, item.Canonical)
    (ih : ∀ item ∈ items, ∀ n, (kinds item.pieces).length ≤ n + 1 →
      ∀ k, Reads [] (itemsAt (n + 1)) item.pieces [item] k)
    (hn : (kinds (Item.piecesList items)).length ≤ n) (k : List Piece) :
    Reads [] (Parser.body (itemsAt n)) (Item.piecesList items ++ [mark .rbrace]) items k := by
  refine Reads.body (fun item hitem k => ⟨?_, ?_⟩) (fun item hitem => ?_) fun item hitem k => ?_
  · exact item.start_ne (h item hitem) _ rfl k
  · exact item.start_ne (h item hitem) _ rfl k
  · exact item.docsAfter_pieces (h item hitem)
  · have hle := Nat.le_trans (Item.kinds_piecesList_le hitem) hn
    have hpos := Nat.lt_of_lt_of_le (item.kinds_pieces_pos (h item hitem)) hle
    obtain ⟨n, rfl⟩ := Nat.exists_eq_succ_of_ne_zero (Nat.ne_of_gt hpos)
    exact ih item hitem n hle k

/-- A canonical statement is read back from its pieces. There are enough levels of nesting, because
each level takes a token. -/
theorem Item.read {item : Item} (h : item.Canonical) : ∀ n, (kinds item.pieces).length ≤ n + 1 →
    ∀ k, Reads [] (itemsAt (n + 1)) item.pieces [item] k := by
  induction h with
  | function name callable =>
    intro n _ k
    refine Reads.docs_append (Reads.itemsWith ⟨_, _, rfl, rfl⟩ fun docs => ?_)
    exact Reads.bind_nil Reads.peek (Reads.functionDecl name callable).map
  | interface _ name typeParams bases members =>
    intro n _ k
    refine Reads.docs_append (Reads.itemsWith ⟨_, _, rfl, rfl⟩ fun docs => ?_)
    exact Reads.bind_nil Reads.peek (Reads.interfaceDecl name typeParams bases members).map
  | typeAlias _ name typeParams type rank =>
    intro n _ k
    refine Reads.docs_append (Reads.itemsWith ⟨_, _, rfl, rfl⟩ fun docs => ?_)
    exact Reads.bind_nil Reads.peek (Reads.aliasDecl name typeParams type rank).map
  | @cls d _ name typeParams base interfaces members =>
    intro n _ k
    refine Reads.docs_append (Reads.itemsWith ?_ fun docs =>
      Reads.declaration_class name typeParams base interfaces members)
    rw [ClassDecl.body]
    cases d.isAbstract <;> exact ⟨_, _, rfl, rfl⟩
  | @var d _ name enum type initializer =>
    intro n _ k
    refine Reads.docs_append (Reads.itemsWith ⟨_, _, rfl, ?_⟩ fun docs =>
      Reads.declaration_var name enum type initializer)
    cases d.kind <;> rfl
  | @enum d _ name members =>
    intro n _ k
    refine Reads.docs_append (Reads.itemsWith ?_ fun docs => Reads.declaration_enum name members)
    rw [EnumDecl.body]
    cases d.isConst <;> exact ⟨_, _, rfl, rfl⟩
  | @space b _ name items ih =>
    intro n hn k
    simp only [Item.pieces, kinds_append, List.length_append, kinds_token, List.length_cons] at hn
    have hbody := Item.read_body (n := n) items ih (by omega) k
    refine Reads.docs_append (Reads.itemsWith ?_ fun docs => Reads.declaration_space name hbody)
    rcases Reads.namespaceHead_cases b.name with hhead | ⟨hhead, -⟩ <;> rw [hhead] <;>
      exact ⟨_, _, rfl, rfl⟩
  | ambient _ items ih =>
    intro n hn k
    simp only [Item.pieces, kinds_append, List.length_append, kinds_token, List.length_cons] at hn
    have hbody := Item.read_body (n := n) items ih (by omega) k
    exact Reads.docs_append (Reads.itemsWith ⟨_, _, rfl, rfl⟩ fun docs =>
      Reads.declaration_ambient hbody)
  | exports fits => exact fun n _ k => Reads.itemsWith_exports fits

/-- The statements of a file. -/
theorem Parser.Reads.file {items : List Item} (h : ∀ item ∈ items, item.Canonical) :
    Reads [] Parser.file (Item.piecesList items) items [] := by
  rw [Item.piecesList_eq]
  refine Reads.many (C := fun _ => True) (Reads.check .eof) trivial (fun item hitem => ?_)
    fun item hitem k _ => ⟨?_, ?_, item.docsAfter_pieces (h item hitem), trivial⟩
  · exact List.length_pos_iff.1 (item.kinds_pieces_pos (h item hitem))
  · exact Reads.check_other (item.start_ne (h item hitem) _ rfl k)
  · refine Reads.bind_nil Reads.peek ?_
    have hstart := item.start (h item hitem) k
    split
    · next heq =>
      rw [heq] at hstart
      cases hstart
    · refine Reads.bind_nil Reads.turns (item.read (h item hitem) _ ?_ k)
      rw [kinds_append, List.length_append]
      omega

end DeclLayer
