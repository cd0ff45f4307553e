import DeclLayer.Proofs.Render.ItemPieces
import DeclLayer.Proofs.Render.TypeText

/-!
# The text of a statement is its pieces

`Item.written`: the text of a canonical statement, at any depth, is cut into the pieces of the
statement, and `Item.writes_renderList` says the same of the statements of a block or a file.
Neither the indentation nor the empty lines show.
-/

namespace DeclLayer

open Token Literal Comment

/-! ## Lines -/

section

variable {layout : Layout} {depth : Nat}

/-- A line is what stands on it: neither its indentation nor its end shows. -/
theorem Layout.writes_line (layout : Layout) (depth : Nat) (hindent : IsIndent layout.unit.toList)
    {β : Char → Bool} {text : String} {ps : List Piece} (h : Writes β text ps)
    (hβ : β '\n' = true) :
    Writes free (layout.line depth text) ps := by
  have hline : Writes free (text ++ "\n") ps :=
    (h.then_ .newline (c := '\n') rfl hβ).cast (List.append_nil ps)
  rw [Layout.line]
  split
  · next hempty =>
    rw [String.isEmpty_iff.1 hempty] at hline
    exact hline
  · rw [String.append_assoc]
    exact (Writes.indent (layout.isIndent_indent hindent depth)).append_free hline

/-- A line with the comments in front of it. -/
theorem Layout.writes_documented (layout : Layout) (depth : Nat)
    (hindent : IsIndent layout.unit.toList) {docs : Docs}
    (hdocs : ∀ doc ∈ docs, IsDoc doc) {β : Char → Bool} {text : String} {ps : List Piece}
    (h : Writes β text ps) (hβ : β '\n' = true) :
    Writes free (layout.docBlock depth docs ++ layout.line depth text) (docs.map .doc ++ ps) :=
  (layout.writes_docBlock hindent depth hdocs).append_free (layout.writes_line depth hindent h hβ)

/-- A block: a line with comments in front of it, the lines of the block, and the closing line. -/
theorem Layout.writes_block (layout : Layout) (depth : Nat)
    (hindent : IsIndent layout.unit.toList) {docs : Docs}
    (hdocs : ∀ doc ∈ docs, IsDoc doc) {head body : String} {ps qs : List Piece}
    (hhead : Writes free head ps) (hbody : Writes free body qs) :
    Writes free (layout.docBlock depth docs ++ layout.line depth head ++ body ++
      layout.line depth "\x7d") (docs.map .doc ++ ps ++ qs ++ [mark .rbrace]) :=
  ((layout.writes_documented depth hindent hdocs hhead rfl).append_free hbody).append_free
    (layout.writes_line depth hindent .rbrace rfl)

/-- Lines for the elements of a list, where all lines but the last one end with a comma. -/
theorem Token.Writes.lines {α : Type} {render : List α → String} {line : α → Bool → String}
    {pieces : α → List Piece} (hnil : render [] = "")
    (hcons : ∀ x xs, render (x :: xs) = line x (!xs.isEmpty) ++ render xs) :
    ∀ xs : List α,
      (∀ x ∈ xs, ∀ more, Writes free (line x more) (pieces x ++ piecesIf more [mark .comma])) →
      Writes free (render xs) (separatedBy .comma (xs.map pieces))
  | [], _ => hnil ▸ .empty
  | [x], h => by
    rw [hcons, hnil, String.append_empty]
    exact h x (List.mem_singleton.2 rfl) false
  | x :: y :: xs, h => by
    obtain ⟨hx, hrest⟩ := List.forall_mem_cons.1 h
    rw [hcons]
    refine ((hx true).append_free (lines hnil hcons (y :: xs) hrest)).cast ?_
    simp only [List.map_cons, separatedBy, List.flatMap_cons, List.append_assoc, List.cons_append,
      List.nil_append, piecesIf, if_true]

/-! ## Parts of statements -/

/-- The brace at the end of the first line of a block. -/
theorem Token.Writes.openBrace : Writes free " \x7b" [mark .lbrace] :=
  (Writes.space.append_free .lbrace).spelled rfl

/-- The words in front of a statement. -/
theorem Modifiers.writes_lead (m : Modifiers) : Writes free m.lead m.pieces :=
  (Writes.whenever _ (Writes.keywordSpace .exportKw)).append_free
    (Writes.whenever _ (Writes.keywordSpace .declare))

/-- The words in front of a class member. -/
theorem Parser.MemberModifiers.writes_words (m : MemberModifiers) :
    Writes free (m.visibility.lead ++ textIf m.isStatic "static " ++
      textIf m.isAbstract "abstract " ++ textIf m.readonly "readonly ") (m.words.map word) := by
  obtain ⟨visibility, isStatic, isAbstract, readonly⟩ := m
  have hvisibility : Writes free visibility.lead (visibility.words.map word) := by
    cases visibility with
    | everyone => exact .empty
    | subclasses => exact .keywordSpace .protectedKw
    | owner => exact .keywordSpace .privateKw
  have hwords := ((hvisibility.append_free
    (.whenever isStatic (.keywordSpace .static))).append_free
    (.whenever isAbstract (.keywordSpace .abstract))).append_free
    (.whenever readonly .readonlySpace)
  refine hwords.cast ?_
  simp only [words, List.map_append, List.append_assoc]
  cases isStatic <;> cases isAbstract <;> cases readonly <;> rfl

/-- An identifier as a word. -/
theorem Token.Writes.ident {name : String} (h : isIdent name = true) :
    Writes apart name [.token (wordKind name)] :=
  (Writes.word (Bool.and_eq_true_iff.1 h).1).mono fun _ => notWord_of_apart

/-- A name with what leads to it. -/
theorem Token.Writes.declared (m : Modifiers) {lead name : String} {ps : List Piece}
    (hlead : Writes free lead ps) (hname : isIdent name = true) :
    Writes apart (m.lead ++ lead ++ name) (m.pieces ++ ps ++ [.token (wordKind name)]) :=
  (m.writes_lead.append_free hlead).append_free (.ident hname)

/-- An initializer after an equals sign, or nothing. -/
theorem Token.writes_initializer {init : Option String}
    (h : ∀ text ∈ init, Parser.IsInitializer text) :
    Writes tight (initializerText init) (initializerPieces init) := by
  cases init with
  | none => exact .empty
  | some text =>
    obtain ⟨ls, hcuts⟩ := (h text rfl).cuts
    exact Writes.spacedEquals.append_free hcuts.writes_verbatim

/-- An initializer can stand after whatever a blank can follow. -/
theorem Token.meets_initializer (init : Option String) :
    Meets tight (initializerText init) tight := by
  cases init with
  | none => exact meets_empty fun _ h => h
  | some text => exact .of_head (String.toList_append ..) (by decide)

/-- All types among canonical parts are written as their pieces. -/
theorem Part.Canonical.written (layout : Layout) (hindent : IsIndent layout.unit.toList)
    {parts : List Part} (h : Part.Canonical parts) (u : Ty) (hu : .type u ∈ parts) :
    u.Written layout :=
  u.written layout hindent (h u hu)

/-- The text of a list of type parameters is their pieces. -/
theorem TypeParam.writes_list (layout : Layout) (hindent : IsIndent layout.unit.toList)
    {ps : List (TypeParam Ty)}
    (h : ∀ p ∈ ps, p.Canonical) :
    Writes apart (angled (Ty.renderTypeParams layout ps)) (angledBy (Ty.piecesTypeParams ps)) := by
  rw [Ty.renderTypeParams_eq, Ty.piecesTypeParams_eq]
  exact .angled fun p hp => p.writes_text (h p hp).fits ((h p hp).types.written _ hindent)

/-- The text of the types behind `extends` or `implements` is their pieces. -/
theorem Ty.writes_bases (layout : Layout) (types : List Ty) {lead : String} {k : Keyword}
    (hlead : Writes free lead [word k]) (h : ∀ t ∈ types, t.Written layout) :
    Writes apart (Ty.renderBases layout lead types) (Ty.piecesBases k types) := by
  cases types with
  | nil => exact .empty
  | cons t types =>
    have hlist := Writes.separated _ fun u hu => h u hu layout.base
    rw [← Ty.renderList_eq, ← Ty.piecesList_eq] at hlist
    exact hlead.append_free hlist

/-- The types behind `extends` or `implements` can stand after whatever the keyword can follow. -/
theorem Ty.meets_bases {types : List Ty} {lead : String} {c : Char} {cs : List Char}
    (hlead : lead.toList = c :: cs) (hc : apart c = true) :
    Meets apart (Ty.renderBases layout lead types) apart := by
  cases types with
  | nil => exact meets_empty fun _ h => h
  | cons t types =>
    have htext : (Ty.renderBases layout lead (t :: types)).toList = c :: (cs ++
        (Text.joinWith ", " (Ty.renderList layout layout.base (t :: types))).toList) := by
      rw [Ty.renderBases, List.isEmpty_cons, if_neg Bool.false_ne_true, String.toList_append, hlead,
        List.cons_append]
    exact .of_head htext hc

/-- The text of a class member is its pieces. There is one case for each kind of member. -/
theorem ClassMember.writes_render (layout : Layout) (depth : Nat)
    (hindent : IsIndent layout.unit.toList) {m : ClassMember} (h : m.Fits)
    (hparts : ∀ u, .type u ∈ m.parts → u.Written layout) :
    Writes free (m.render layout depth) m.pieces := by
  have hlead {docs : Docs} (hdocs : ∀ doc ∈ docs, IsDoc doc) (m : Parser.MemberModifiers) :=
    (layout.writes_lead depth hindent hdocs).append_free m.writes_words
  cases h with
  | @property p docs name type =>
    have htype := Ty.writes_after _ depth p.type .colon (Ty.forall_optionParts.1 hparts)
    have hname := ((hlead docs ⟨p.visibility, p.isStatic, p.isAbstract, p.readonly⟩).append_free
      name.property.writes).optional p.optional
    have hall := (hname.append (htype.mono fun _ => apart_of_tight)
      (Ty.meets_after (c := ':') rfl (by decide) fun _ h => h)).then_ .lineEnd (c := ';') rfl
      (by decide)
    rw [ClassMember.render]
    simp only [String.append_assoc] at hall ⊢
    refine hall.cast ?_
    simp only [ClassMember.pieces, ClassMember.docs, ClassMember.modifiers, ClassMember.body,
      List.append_assoc, List.cons_append, List.nil_append]
  | @method d name callable _ =>
    have hcallable := Callable.writes_text depth callable hparts
    have hwords := (hlead callable.docs ⟨d.visibility, d.isStatic, d.isAbstract, false⟩).append_free
      d.kind.writes_lead
    have hname := (hwords.append_free name.property.writes).optional d.optional
    rw [String.append_assoc] at hcallable
    have hall := hname.append hcallable (Ty.meets_signature _ (by decide) (by decide))
    rw [ClassMember.render]
    simp only [textIf, Bool.false_eq_true, if_false, String.append_empty, String.append_assoc]
      at hall ⊢
    refine hall.cast ?_
    simp only [ClassMember.pieces, ClassMember.docs, ClassMember.modifiers, ClassMember.body,
      Callable.pieces, List.append_assoc, List.cons_append, List.nil_append]
  | @constructor c docs params =>
    have hsignature := Signature.writes_text depth (s := ⟨[], none, c.params⟩)
      ⟨List.forall_mem_nil _, by rintro _ ⟨⟩, params⟩ hparts
    have hword : Writes notWord "constructor" [.token (.ident "constructor")] :=
      .word (w := "constructor") (by decide)
    have hmeets : Meets notWord (Ty.renderSignature layout depth ⟨[], none, c.params⟩ ++ "") free :=
      Ty.meets_signature "" (by decide) (by decide)
    rw [String.append_empty] at hmeets
    have hname := (hlead docs ⟨c.visibility, false, false, false⟩).append_free hword
    have hall := (hname.append hsignature hmeets).append_free .lineEnd
    rw [ClassMember.render]
    simp only [textIf, Bool.false_eq_true, if_false, String.append_empty, String.append_assoc]
      at hall ⊢
    refine hall.cast ?_
    simp only [ClassMember.pieces, ClassMember.docs, ClassMember.modifiers, ClassMember.body,
      Ty.piecesSignature, Ty.piecesTypeParams, Ty.piecesThis, angledBy, List.isEmpty_nil, if_true,
      List.append_assoc, List.cons_append, List.nil_append]
  | @index i index =>
    have hall := Member.writes_text depth hindent (.index index) hparts
    refine hall.cast ?_
    rw [ClassMember.pieces, Member.pieces]
    show i.docs.map Piece.doc ++ _ = i.docs.map Piece.doc ++ _
    rw [Member.body, IndexSignature.pieces, ClassMember.body, ClassMember.modifiers]
    cases i.readonly <;> rfl

/-- The line of an enum member, with its comments, and with a comma unless it is the last one. -/
theorem EnumMember.writes_line (hindent : IsIndent layout.unit.toList) {m : EnumMember} (h : m.Fits)
    (more : Bool) :
    Writes free (layout.docBlock depth m.docs ++ layout.line depth
      (m.name ++ initializerText m.initializer ++ textIf more ","))
      (m.pieces ++ piecesIf more [mark .comma]) := by
  have hmember := h.name.writes.append (writes_initializer h.initializer) (meets_initializer _)
  have htext := hmember.append (γ := tight) (Writes.lineComma.whenever more).of_free
    (meets_textIf (c := ',') rfl (by decide) fun _ h => h)
  refine (layout.writes_documented depth hindent h.docs htext rfl).cast ?_
  simp only [EnumMember.pieces, List.append_assoc, List.cons_append, List.nil_append]

/-- The text of the members of an enum is their pieces. -/
theorem EnumMember.writes_renderList (layout : Layout) (depth : Nat)
    (hindent : IsIndent layout.unit.toList) {ms : List EnumMember} (h : ∀ m ∈ ms, m.Fits) :
    Writes free (EnumMember.renderList layout depth ms)
      (separatedBy .comma (ms.map EnumMember.pieces)) :=
  .lines rfl (fun _ _ => rfl) ms fun m hm => m.writes_line hindent (h m hm)

/-- The line of an exported name, with a comma unless it is the last one. -/
theorem Export.writes_line (hindent : IsIndent layout.unit.toList) {name : String × Option String}
    (hname : isIdent name.1 = true) (hshown : ∀ shown ∈ name.2, isIdent shown = true)
    (more : Bool) :
    Writes free (layout.line depth (name.1 ++ (match name.2 with
      | some shown => " as " ++ shown
      | none => "") ++ textIf more ","))
      (Export.namePieces name ++ piecesIf more [mark .comma]) := by
  obtain ⟨name, shown⟩ := name
  have has : Writes free " as " [word .asKw] := .spacedKeyword .asKw
  have hline {text : String} {ps : List Piece} (htext : Writes apart text ps) :
      Writes free (layout.line depth (text ++ textIf more ","))
        (ps ++ piecesIf more [mark .comma]) :=
    layout.writes_line depth hindent
      (htext.append (γ := apart) (Writes.lineComma.whenever _).of_free
        (meets_textIf (c := ',') rfl (by decide) fun _ h => h)) (by decide)
  cases shown with
  | none => exact hline ((Writes.ident hname).append .empty (meets_empty fun _ h => h))
  | some shown =>
    exact hline ((Writes.ident hname).then_ (has.append_free (.ident (hshown shown rfl)))
      (String.toList_append ..) (c := ' ') (by decide))

/-- The text of an export statement is its pieces. -/
theorem Export.writes_render (layout : Layout) (hindent : IsIndent layout.unit.toList) {e : Export}
    (h : e.Fits) :
    Writes free (e.render layout depth) (word .exportKw :: e.body) := by
  have hexport : Writes free "export " [word .exportKw] := .keywordSpace .exportKw
  cases e with
  | equals name =>
    have hlead : Writes free "export = " [word .exportKw, mark .eq] :=
      (hexport.append_free .equals).spelled rfl
    have htext := (hlead.append_free (.ident h)).then_ .semicolon (c := ';') rfl (by decide)
    exact layout.writes_line depth hindent htext rfl
  | default name =>
    have hlead : Writes free "export default " [word .exportKw, word .default] :=
      (hexport.append_free (.keywordSpace .default)).spelled rfl
    have htext := (hlead.append_free (.ident h)).then_ .semicolon (c := ';') rfl (by decide)
    exact layout.writes_line depth hindent htext rfl
  | named names =>
    have hopen : Writes free "export \x7b" [word .exportKw, mark .lbrace] :=
      (hexport.append_free .lbrace).spelled rfl
    have hclose : Writes free "\x7d;" [mark .rbrace, mark .semicolon] :=
      (Writes.rbrace.append_free .semicolon).spelled rfl
    have hnames : Writes free (Export.renderNames layout (depth + 1) names)
        (separatedBy .comma (names.map Export.namePieces)) :=
      .lines rfl (fun _ _ => rfl) names fun name hname =>
        Export.writes_line hindent (h name hname).1 (h name hname).2
    rw [Export.render]
    split
    · next hempty =>
      rw [List.isEmpty_iff.1 hempty]
      exact layout.writes_line depth hindent (hopen.append_free hclose) rfl
    · refine (((layout.writes_line depth hindent hopen rfl).append_free
        hnames).append_free (layout.writes_line depth hindent hclose rfl)).cast ?_
      simp only [Export.body, List.cons_append, List.nil_append]

/-- The first line of a namespace. -/
theorem writes_namespaceHeader (m : Modifiers) {name : String}
    (h : ∀ w ∈ nameWords name, isIdent w = true) :
    Writes free (namespaceHeader m name) (m.pieces ++ (namespaceHead name ++ [mark .lbrace])) := by
  have hdotted : Writes apart name (dotted name) := by
    refine (Writes.dotted (List.all_eq_true.2 fun w hw => ?_)).mono fun _ => notWord_of_apart
    exact (Bool.and_eq_true_iff.1 (h w hw)).1
  have hhead : Writes apart (if name == "global" then "global" else "namespace " ++ name)
      (namespaceHead name) := by
    rw [namespaceHead]
    cases hglobal : name == "global" with
    | true =>
      obtain rfl : name = "global" := beq_iff_eq.1 hglobal
      exact hdotted
    | false =>
      rw [if_neg Bool.false_ne_true, bne, hglobal]
      exact (Writes.keywordSpace .namespaceKw).append_free hdotted
  refine ((m.writes_lead.append_free hhead).then_ .openBrace (c := ' ') rfl (by decide)).cast ?_
  rw [List.append_assoc]

/-- The empty line between two statements does not show. -/
theorem writes_blankBetween (before : Option Item) (item : Item) :
    Writes free (blankBetween before item) [] := by
  cases before with
  | none => exact .empty
  | some before =>
    rw [blankBetween, textIf]
    split
    · exact .newline
    · exact .empty

end

/-! ## Statements -/

variable {unit : String}

/-- The text of a statement, at any depth, is its pieces. -/
def Item.Written (unit : String) (item : Item) : Prop :=
  ∀ depth, Writes free (item.render unit depth) item.pieces

/-- The text of the statements of a block is their pieces. -/
theorem Item.writes_renderList (depth : Nat) {items : List Item}
    (h : ∀ item ∈ items, item.Written unit) (before : Option Item) :
    Writes free (Item.renderList unit depth before items) (Item.piecesList items) := by
  induction items generalizing before with
  | nil => exact .empty
  | cons item items ih =>
    obtain ⟨hitem, hitems⟩ := List.forall_mem_cons.1 h
    rw [Item.renderList, Item.piecesList]
    exact ((writes_blankBetween before item).append_free (hitem depth)).append_free
      (ih hitems (some item))

section

variable (hindent : IsIndent unit.toList)

include hindent

/-- A function is written as its pieces. -/
theorem FunctionDecl.written {d : FunctionDecl} (h : (Item.function d).Canonical) :
    (Item.function d).Written unit := by
  intro depth
  cases h with
  | function name callable =>
    have hwritten := callable.types.written ⟨unit, depth⟩ hindent
    obtain ⟨hpartsSignature, hpartsReturns⟩ := Callable.forall_parts.1 hwritten
    have hsignature := d.signature.writes_text depth callable.fits.signature hpartsSignature
    have hreturns := Ty.writes_after _ depth d.returns .colon hpartsReturns
    have hname := Writes.declared d.modifiers (.keywordSpace .function) name
    have hrest := (hsignature.append_free hreturns).then_ .semicolon (c := ';') rfl (by decide)
    rw [String.append_assoc] at hrest
    have htext := hname.append hrest (Ty.meets_signature _ (by decide) (by decide))
    have hall := Layout.writes_documented ⟨unit, depth⟩ depth hindent
      callable.fits.docs htext rfl
    rw [Item.render]
    simp only [String.append_assoc] at hall ⊢
    refine hall.cast ?_
    simp only [Item.pieces, FunctionDecl.body, List.append_assoc, List.cons_append, List.nil_append]

/-- An interface is written as its pieces. -/
theorem InterfaceDecl.written {d : InterfaceDecl} (h : (Item.interface d).Canonical) :
    (Item.interface d).Written unit := by
  intro depth
  cases h with
  | interface docs name typeParams bases members =>
    have htypeParams := TypeParam.writes_list ⟨unit, depth⟩ hindent typeParams
    have hbases := Ty.writes_bases ⟨unit, depth⟩ d.bases .spacedExtends
      fun u hu => u.written _ hindent (bases u hu).1
    have hmembers := Ty.writes_members ⟨unit, depth⟩ (depth + 1) hindent
      (fun m hm => (members m hm).fits) fun m hm => (members m hm).types.written _ hindent
    have hname := Writes.declared d.modifiers (.keywordSpace .interface) name
    have hhead := ((hname.append htypeParams (meets_angled _)).append hbases
      (Ty.meets_bases (c := ' ') rfl (by decide))).then_ .openBrace (c := ' ') rfl (by decide)
    have hall := Layout.writes_block ⟨unit, depth⟩ depth hindent docs hhead
      hmembers
    rw [Item.render]
    simp only [String.append_assoc] at hall ⊢
    refine hall.cast ?_
    simp only [Item.pieces, InterfaceDecl.body, List.append_assoc, List.cons_append,
      List.nil_append]

/-- A type alias is written as its pieces. -/
theorem AliasDecl.written {d : AliasDecl} (h : (Item.typeAlias d).Canonical) :
    (Item.typeAlias d).Written unit := by
  intro depth
  cases h with
  | typeAlias docs name typeParams type rank =>
    have htypeParams := TypeParam.writes_list ⟨unit, depth⟩ hindent typeParams
    have htype := d.type.written ⟨unit, depth⟩ hindent type depth
    have hname := Writes.declared d.modifiers (.keywordSpace .type) name
    have htext := (((hname.append htypeParams (meets_angled _)).then_ .spacedEquals (c := ' ') rfl
      (by decide)).append_free htype).then_ .semicolon (c := ';') rfl (by decide)
    have hall := Layout.writes_documented ⟨unit, depth⟩ depth hindent docs
      htext rfl
    rw [Item.render]
    simp only [String.append_assoc] at hall ⊢
    refine hall.cast ?_
    simp only [Item.pieces, AliasDecl.body, List.append_assoc, List.cons_append, List.nil_append]

/-- A class is written as its pieces. -/
theorem ClassDecl.written {d : ClassDecl} (h : (Item.cls d).Canonical) :
    (Item.cls d).Written unit := by
  intro depth
  cases h with
  | cls docs name typeParams base interfaces members =>
    have htypeParams := TypeParam.writes_list ⟨unit, depth⟩ hindent typeParams
    have hbase := Ty.writes_after ⟨unit, depth⟩ depth d.base
      .spacedExtends fun u hu => u.written _ hindent (base u hu).1
    have hinterfaces := Ty.writes_bases ⟨unit, depth⟩ d.interfaces
      (.spacedKeyword .implements) fun u hu => u.written _ hindent (interfaces u hu).1
    have hmembers := Writes.join d.members fun m hm => ClassMember.writes_render
      ⟨unit, depth⟩ (depth + 1) hindent (members m hm).fits
      ((members m hm).types.written _ hindent)
    have hlead := (Writes.whenever d.isAbstract
      (Writes.keywordSpace .abstract)).append_free (.keywordSpace .classKw)
    have hname := Writes.declared d.modifiers hlead name
    have hhead := (((hname.append htypeParams (meets_angled _)).append hbase
      (Ty.meets_after (c := ' ') rfl (by decide) fun _ h => h)).append hinterfaces
      (Ty.meets_bases (c := ' ') rfl (by decide))).then_ .openBrace (c := ' ') rfl (by decide)
    have hall := Layout.writes_block ⟨unit, depth⟩ depth hindent docs hhead
      hmembers
    rw [Item.render]
    simp only [String.append_assoc] at hall ⊢
    refine hall.cast ?_
    simp only [Item.pieces, ClassDecl.body, List.append_assoc, List.cons_append, List.nil_append]

/-- A variable is written as its pieces. -/
theorem VariableDecl.written {d : VariableDecl} (h : (Item.var d).Canonical) :
    (Item.var d).Written unit := by
  intro depth
  cases h with
  | var docs name enum type initializer =>
    have htype := Ty.writes_after ⟨unit, depth⟩ depth d.type .colon
      fun u hu => u.written _ hindent (type u hu).1
    have hkind : Writes free (d.kind.text ++ " ") [word d.kind.keyword] := by
      cases d.kind with
      | constant => exact .keywordSpace .const
      | block => exact .keywordSpace .letKw
      | function => exact .keywordSpace .var
    have hname := (d.modifiers.writes_lead.append_free hkind).append_free name.writes
    have htext := ((hname.append (htype.mono fun _ => apart_of_tight)
      (Ty.meets_after (c := ':') rfl (by decide) fun _ h => h)).append
      (writes_initializer initializer) (meets_initializer _)).then_ .semicolon (c := ';') rfl
      (by decide)
    have hall := Layout.writes_documented ⟨unit, depth⟩ depth hindent docs
      htext rfl
    rw [Item.render]
    simp only [String.append_assoc] at hall ⊢
    refine hall.cast ?_
    simp only [Item.pieces, VariableDecl.body, List.append_assoc, List.cons_append, List.nil_append]

/-- An enum is written as its pieces. -/
theorem EnumDecl.written {d : EnumDecl} (h : (Item.enum d).Canonical) :
    (Item.enum d).Written unit := by
  intro depth
  cases h with
  | enum docs name members =>
    have hmembers := EnumMember.writes_renderList ⟨unit, depth⟩ (depth + 1) hindent members
    have hlead := (Writes.whenever d.isConst
      (Writes.keywordSpace .const)).append_free (.keywordSpace .enum)
    have hhead := (Writes.declared d.modifiers hlead name).then_ .openBrace (c := ' ') rfl
      (by decide)
    have hall := Layout.writes_block ⟨unit, depth⟩ depth hindent docs hhead
      hmembers
    rw [Item.render]
    simp only [String.append_assoc] at hall ⊢
    refine hall.cast ?_
    simp only [Item.pieces, EnumDecl.body, List.append_assoc, List.cons_append, List.nil_append]

/-- A namespace is written as its pieces if its statements are. -/
theorem Block.written_space {b : Block Item} (docs : ∀ doc ∈ b.docs, IsDoc doc)
    (name : ∀ w ∈ nameWords b.name, isIdent w = true)
    (items : ∀ item ∈ b.items, item.Written unit) : (Item.space b).Written unit := by
  intro depth
  have hall := Layout.writes_block ⟨unit, depth⟩ depth hindent docs
    (writes_namespaceHeader b.modifiers name)
    (Item.writes_renderList (depth + 1) items none)
  refine hall.cast ?_
  simp only [Item.pieces, List.append_assoc, List.cons_append, List.nil_append]

/-- An ambient module is written as its pieces if its statements are. -/
theorem Block.written_ambient {b : Block Item} (docs : ∀ doc ∈ b.docs, IsDoc doc)
    (items : ∀ item ∈ b.items, item.Written unit) : (Item.ambient b).Written unit := by
  intro depth
  have hhead := ((b.modifiers.writes_lead.append_free (.keywordSpace .moduleKw)).append_free
    (.quote b.name)).append_free .openBrace
  have hall := Layout.writes_block ⟨unit, depth⟩ depth hindent docs hhead
    (Item.writes_renderList (depth + 1) items none)
  refine hall.cast ?_
  simp only [Item.pieces, List.append_assoc, List.cons_append, List.nil_append]

/-- The text of a canonical statement is its pieces. -/
theorem Item.written {item : Item} (h : item.Canonical) : item.Written unit := by
  induction h with
  | function name callable => exact FunctionDecl.written hindent (.function name callable)
  | interface docs name typeParams bases members =>
    exact InterfaceDecl.written hindent (.interface docs name typeParams bases members)
  | typeAlias docs name typeParams type rank =>
    exact AliasDecl.written hindent (.typeAlias docs name typeParams type rank)
  | cls docs name typeParams base interfaces members =>
    exact ClassDecl.written hindent (.cls docs name typeParams base interfaces members)
  | var docs name enum type initializer =>
    exact VariableDecl.written hindent (.var docs name enum type initializer)
  | enum docs name members => exact EnumDecl.written hindent (.enum docs name members)
  | space docs name _ ih => exact Block.written_space hindent docs name ih
  | ambient docs _ ih => exact Block.written_ambient hindent docs ih
  | exports fits => exact fun depth => Export.writes_render ⟨unit, depth⟩ hindent fits

end

end DeclLayer
