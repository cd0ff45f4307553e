import DeclLayer.Proofs.Render.Canonical

/-!
# The text of a type is its pieces

`Ty.written`: the text of a canonical type is cut into the pieces of the type, in front of
anything that is set apart from it. The layout does not show, as long as lines are indented with
blanks.
-/

namespace DeclLayer

open Token Literal Comment

namespace Token

/-! ## Texts in a row -/

namespace Writes

variable {α : Type} {β γ : Char → Bool} {s : String} {ps qs : List Piece}

/-- A text with its pieces put together in another way. -/
theorem cast (h : Writes β s ps) (hps : ps = qs) : Writes β s qs := hps ▸ h

/-- A text that is put together from others is also written as a whole. -/
theorem spelled {t : String} (h : Writes β s ps) (ht : s = t) : Writes β t ps := ht ▸ h

/-- A text is followed by one that begins with a suitable character. -/
theorem then_ {t : String} {c : Char} {cs : List Char} (hs : Writes β s ps)
    (ht : Writes γ t qs) (htext : t.toList = c :: cs) (hc : β c = true) :
    Writes γ (s ++ t) (ps ++ qs) :=
  hs.append ht (.of_head htext hc)

/-- Texts with separators between them. -/
theorem joined {sep : String} {p : Punct} {c : Char} {cs : List Char}
    (hsep : Writes free sep [mark p]) (htext : sep.toList = c :: cs) (hc : β c = true)
    {text : α → String} {pieces : α → List Piece} :
    ∀ xs : List α, (∀ x ∈ xs, Writes β (text x) (pieces x)) →
      Writes β (Text.joinWith sep (xs.map text)) (separatedBy p (xs.map pieces))
  | [], _ => .empty
  | [x], h => by
    have hx := h x (List.mem_singleton.2 rfl)
    rw [List.map_singleton, Text.joinWith, String.intercalate_singleton]
    exact hx.cast (List.append_nil _).symm
  | x :: y :: xs, h => by
    obtain ⟨hx, hrest⟩ := List.forall_mem_cons.1 h
    have hall := (hx.then_ hsep htext hc).append_free (joined hsep htext hc (y :: xs) hrest)
    rw [List.map_cons, List.map_cons, Text.joinWith, String.intercalate_cons_cons]
    refine hall.cast ?_
    simp only [List.map_cons, separatedBy, List.flatMap_cons, List.append_assoc, List.cons_append,
      List.nil_append]

/-! ## Fixed texts -/

/-- A comma is one mark. -/
theorem lineComma : Writes free "," [mark .comma] :=
  punct _ (c := ',') rfl rfl

/-- A comma and a blank are one mark: the blank does not show. -/
theorem comma : Writes free ", " [mark .comma] :=
  (lineComma.append_free space).spelled rfl

/-- A colon and a blank are one mark. -/
theorem colon : Writes free ": " [mark .colon] :=
  ((punct ":" (c := ':') rfl rfl).append_free space).spelled rfl

/-- A question mark is one mark. -/
theorem question : Writes free "?" [mark .question] :=
  punct _ (c := '?') rfl rfl

/-- A plus sign is one mark. -/
theorem plus : Writes free "+" [mark .plus] :=
  punct _ (c := '+') rfl rfl

/-- A minus sign is one mark. -/
theorem minus : Writes free "-" [mark .minus] :=
  punct _ (c := '-') rfl rfl

/-- An opening round bracket is one mark. -/
theorem lparen : Writes free "(" [mark .lparen] :=
  punct _ (c := '(') rfl rfl

/-- A closing round bracket is one mark. -/
theorem rparen : Writes free ")" [mark .rparen] :=
  punct _ (c := ')') rfl rfl

/-- An opening square bracket is one mark. -/
theorem lbracket : Writes free "[" [mark .lbracket] :=
  punct _ (c := '[') rfl rfl

/-- A closing square bracket is one mark. -/
theorem rbracket : Writes free "]" [mark .rbracket] :=
  punct _ (c := ']') rfl rfl

/-- An opening brace is one mark. -/
theorem lbrace : Writes free "\x7b" [mark .lbrace] :=
  punct _ (c := '\x7b') rfl rfl

/-- A closing brace is one mark. -/
theorem rbrace : Writes free "\x7d" [mark .rbrace] :=
  punct _ (c := '\x7d') rfl rfl

/-- A semicolon is one mark. -/
theorem semicolon : Writes free ";" [mark .semicolon] :=
  punct _ (c := ';') rfl rfl

/-- The semicolon that ends a line is one mark. -/
theorem lineEnd : Writes free ";\n" [mark .semicolon] :=
  (semicolon.append_free newline).spelled rfl

/-- The word `readonly` in front of something. -/
theorem readonlySpace : Writes free "readonly " [Token.word .readonly] :=
  keywordSpace .readonly

/-- The arrow in front of a return type. -/
theorem spacedArrow : Writes free " => " [mark .arrow] :=
  ((space.append_free arrow).append_free space).spelled rfl

/-- The equals sign in front of a default. -/
theorem spacedEquals : Writes free " = " [mark .eq] :=
  (space.append_free equals).spelled rfl

/-- The word `extends` in front of a bound. -/
theorem spacedExtends : Writes free " extends " [Token.word .extendsKw] :=
  spacedKeyword .extendsKw

/-- A mark of one character between blanks. -/
theorem spacedMark (text : String) {c : Char} {p : Punct} (htext : text.toList = [c])
    (hp : simplePunct? c = some p) : Writes free (" " ++ text ++ " ") [mark p] :=
  (space.append_free (punct text htext hp)).append_free space

/-! ## Lists -/

/-- Texts with commas between them, as in a list of parameters or arguments. -/
theorem separated {text : α → String} {pieces : α → List Piece} (xs : List α)
    (h : ∀ x ∈ xs, Writes apart (text x) (pieces x)) :
    Writes apart (Text.joinWith ", " (xs.map text)) (separatedBy .comma (xs.map pieces)) :=
  joined comma (c := ',') rfl (by decide) xs h

/-- Texts in angle brackets. Without any, there are no brackets either. -/
theorem angled {text : α → String} {pieces : α → List Piece} {xs : List α}
    (h : ∀ x ∈ xs, Writes apart (text x) (pieces x)) :
    Writes apart (DeclLayer.angled (xs.map text)) (angledBy (xs.map pieces)) := by
  cases xs with
  | nil => exact .empty
  | cons x xs =>
    have hopen : Writes free "<" [mark .langle] := punct _ (c := '<') rfl rfl
    have hclose : Writes free ">" [mark .rangle] := punct _ (c := '>') rfl rfl
    have hall := (hopen.append_free (separated _ h)).then_ hclose (c := '>') rfl (by decide)
    exact hall.of_free

/-- Texts one after the other. -/
theorem join {text : α → String} {pieces : α → List Piece} (xs : List α)
    (h : ∀ x ∈ xs, Writes free (text x) (pieces x)) :
    Writes free (String.join (xs.map text)) (xs.flatMap pieces) := by
  induction xs with
  | nil => exact .empty
  | cons x xs ih =>
    obtain ⟨hx, hxs⟩ := List.forall_mem_cons.1 h
    rw [List.map_cons, String.join_cons, List.flatMap_cons]
    exact hx.append_free (ih hxs)

/-- A text that may be missing. -/
theorem whenever (condition : Bool) (h : Writes free s ps) :
    Writes free (textIf condition s) (piecesIf condition ps) := by
  cases condition with
  | true => exact h
  | false => exact .empty

end Writes

/-- What can begin a list of type arguments or parameters, or be missing altogether. -/
theorem meets_angled (parts : List String) : Meets apart (angled parts) apart := by
  cases parts with
  | nil => exact meets_empty fun _ h => h
  | cons part parts =>
    have htext : (angled (part :: parts)).toList =
        '<' :: ((Text.joinWith ", " (part :: parts)).toList ++ ['>']) := by
      show ("<" ++ Text.joinWith ", " (part :: parts) ++ ">").toList = _
      rw [String.toList_append, String.toList_append]
      rfl
    exact .of_head htext (by decide)

end Token

/-! ## Texts of what holds types -/

section

variable (layout : Layout) (depth : Nat)

/-- The text of a type parameter. -/
def TypeParam.text (p : TypeParam Ty) : String :=
  p.name ++ Ty.renderAfter layout layout.base " extends " p.constraint ++
    Ty.renderAfter layout layout.base " = " p.default

/-- The text of a parameter. -/
def Param.text (p : Param Ty) : String :=
  textIf p.rest "..." ++ p.name ++ textIf p.optional "?" ++
    Ty.renderAfter layout depth ": " p.type

/-- The text of a tuple element. -/
def TupleElement.text (e : TupleElement Ty) : String :=
  textIf e.rest "..." ++
    (match e.name with
      | some name => name ++ textIf e.optional "?" ++ ": " ++ e.type.render layout depth
      | none => e.type.render layout depth ++ textIf e.optional "?")

/-- The text of a member. -/
def Member.text (m : Member Ty) : String :=
  Ty.renderMembers layout depth [m]

namespace Ty

/-- The texts of some types, one by one. -/
theorem renderList_eq (tys : List Ty) :
    renderList layout depth tys = tys.map (render layout depth) := by
  induction tys with
  | nil => rfl
  | cons ty tys ih => rw [renderList, ih, List.map_cons]

/-- The texts of some type parameters, one by one. -/
theorem renderTypeParams_eq (ps : List (TypeParam Ty)) :
    renderTypeParams layout ps = ps.map (TypeParam.text layout) := by
  induction ps with
  | nil => rfl
  | cons p ps ih => rw [renderTypeParams, ih, List.map_cons, TypeParam.text]

/-- The texts of some parameters, one by one. -/
theorem renderParams_eq (ps : List (Param Ty)) :
    renderParams layout depth ps = ps.map (Param.text layout depth) := by
  induction ps with
  | nil => rfl
  | cons p ps ih => rw [renderParams, ih, List.map_cons, Param.text]

/-- The texts of some tuple elements, one by one. -/
theorem renderElements_eq (es : List (TupleElement Ty)) :
    renderElements layout depth es = es.map (TupleElement.text layout depth) := by
  induction es with
  | nil => rfl
  | cons e es ih =>
    obtain ⟨type, name, optional, rest⟩ := e
    cases name <;> rw [renderElements, ih, List.map_cons, TupleElement.text]

/-- The text of some members is made of their texts. -/
theorem renderMembers_eq (ms : List (Member Ty)) :
    renderMembers layout depth ms = String.join (ms.map (Member.text layout depth)) := by
  induction ms with
  | nil => rfl
  | cons m ms ih =>
    rw [List.map_cons, String.join_cons, ← ih, Member.text]
    cases m <;> simp only [renderMembers, String.append_assoc, String.append_empty]

end Ty

end

/-! ## Pieces of what holds types -/

/-- The text of a type, at any depth, is its pieces. -/
def Ty.Written (layout : Layout) (t : Ty) : Prop :=
  ∀ depth, Writes apart (t.render layout depth) t.pieces

section

variable {layout : Layout} {depth : Nat}

/-- A type that may be missing, with what stands in front of it. -/
theorem Ty.writes_after (layout : Layout) (depth : Nat) (t : Option Ty)
    {lead : String} {kind : Kind}
    (hlead : Writes free lead [.token kind]) (h : ∀ u ∈ t, u.Written layout) :
    Writes apart (Ty.renderAfter layout depth lead t) (Ty.piecesAfter kind t) := by
  cases t with
  | none => exact .empty
  | some u => exact hlead.append_free (h u rfl depth)

/-- A type that may be missing can stand where what is in front of it can. -/
theorem Ty.meets_after {β γ : Char → Bool} {t : Option Ty} {lead : String} {c : Char}
    {cs : List Char} (hlead : lead.toList = c :: cs) (hc : β c = true)
    (hβ : ∀ c, γ c = true → β c = true) : Meets β (Ty.renderAfter layout depth lead t) γ := by
  cases t with
  | none => exact meets_empty hβ
  | some u =>
    have htext : (Ty.renderAfter layout depth lead (some u)).toList =
        c :: (cs ++ (u.render layout depth).toList) := by
      rw [Ty.renderAfter, String.toList_append, hlead, List.cons_append]
    exact .of_head htext hc

/-- A text that may be missing can stand where it can when it is there. -/
theorem meets_textIf {β γ : Char → Bool} {condition : Bool} {text : String} {c : Char}
    {cs : List Char} (htext : text.toList = c :: cs) (hc : β c = true)
    (hβ : ∀ c, γ c = true → β c = true) : Meets β (textIf condition text) γ := by
  cases condition with
  | true => exact .of_head htext hc
  | false => exact meets_empty hβ

/-- The text of a type parameter is its pieces. -/
theorem TypeParam.writes_text {p : TypeParam Ty} (h : p.Fits)
    (hparts : ∀ u, .type u ∈ p.parts → u.Written layout) :
    Writes apart (p.text layout) p.pieces := by
  obtain ⟨hconstraints, hdefaults⟩ := TypeParam.forall_parts.1 hparts
  have hname : isWord p.name = true := (Bool.and_eq_true_iff.1 h.name).1
  have hconstraint := Ty.writes_after _ layout.base p.constraint .spacedExtends hconstraints
  have hdefault := Ty.writes_after _ layout.base p.default .spacedEquals hdefaults
  have hfirst := (Writes.word hname).append hconstraint
    (Ty.meets_after (c := ' ') rfl (by decide) fun _ => notWord_of_apart)
  exact hfirst.append hdefault (Ty.meets_after (c := ' ') rfl (by decide) fun _ h => h)

/-- The name of a parameter. -/
theorem Token.IsParamName.writes {text : String} (h : IsParamName text) :
    Writes tight text [Token.name text] := by
  cases h with
  | ident h =>
    have hword := (Bool.and_eq_true_iff.1 h).1
    rw [Token.name, if_pos hword]
    exact (Writes.word hword).mono fun _ hc => notWord_of_apart (apart_of_tight hc)
  | pattern ls cuts solid closes first =>
    have hword : isWord text = false := by
      rcases first with first | first
      · exact Parser.isWord_of_punct first
      · exact Parser.isWord_of_punct first
    rw [Token.name, hword, if_neg Bool.false_ne_true]
    exact cuts.writes_verbatim

/-- A name with the mark of what is optional. -/
theorem Token.Writes.optional {name : String} {ps : List Piece} (h : Writes tight name ps)
    (optional : Bool) :
    Writes tight (name ++ textIf optional "?") (ps ++ piecesIf optional [mark .question]) :=
  h.append (Writes.question.whenever _).of_free
    (meets_textIf (c := '?') rfl (by decide) fun _ h => h)

/-- The text of a parameter is its pieces. -/
theorem Param.writes_text (depth : Nat) {p : Param Ty} (h : p.Fits)
    (hparts : ∀ u, .type u ∈ p.parts → u.Written layout) :
    Writes tight (p.text layout depth) p.pieces := by
  have htype := Ty.writes_after _ depth p.type .colon (Param.forall_parts.1 hparts)
  have hname := (Writes.ellipsis.whenever p.rest).append_free h.name.writes
  have hall := (hname.optional p.optional).append (htype.mono fun _ => apart_of_tight)
    (Ty.meets_after (c := ':') rfl (by decide) fun _ h => h)
  refine hall.cast ?_
  simp only [Param.pieces, List.append_assoc, List.cons_append, List.nil_append]

/-- The text of a signature is its pieces. -/
theorem Signature.writes_text (depth : Nat) {s : Signature Ty} (h : s.Fits)
    (hparts : ∀ u, .type u ∈ s.parts → u.Written layout) :
    Writes free (Ty.renderSignature layout depth s) (Ty.piecesSignature s) := by
  obtain ⟨typeParams, thisType, params⟩ := s
  obtain ⟨hpartsTypeParams, hpartsThis, hpartsParams⟩ := Signature.forall_parts.1 hparts
  have htypeParams : ∀ p ∈ typeParams, Writes apart (p.text layout) p.pieces :=
    fun p hp => p.writes_text (h.typeParams p hp) (hpartsTypeParams p hp)
  have hparams : ∀ p ∈ params, Writes tight (p.text layout depth) p.pieces :=
    fun p hp => p.writes_text depth (h.params p hp) (hpartsParams p hp)
  have hthis : ∀ u ∈ thisType.toList, Writes tight ("this: " ++ u.render layout depth)
      (word .this :: mark .colon :: u.pieces) := by
    intro u hu
    have hlead : Writes free "this: " [word .this, mark .colon] :=
      ((Writes.keyword .this).then_ .colon (c := ':') rfl (by decide)).spelled rfl
    have htype := hpartsThis u (Option.mem_toList.1 hu)
    exact (hlead.append_free (htype depth)).mono fun _ => apart_of_tight
  -- The type of `this` is one more entry of the list of parameters.
  have hentries : Writes tight (Text.joinWith ", " (Ty.renderThis layout depth thisType ++
        Ty.renderParams layout depth params))
      (separatedBy .comma (Ty.piecesThis thisType ++ Ty.piecesParams params)) := by
    let entries := thisType.toList.map (fun u => ("this: " ++ u.render layout depth,
        word .this :: mark .colon :: u.pieces)) ++
      params.map fun p => (p.text layout depth, p.pieces)
    have hjoined : Writes tight (Text.joinWith ", " (entries.map Prod.fst))
        (separatedBy .comma (entries.map Prod.snd)) := by
      refine Writes.joined .comma (c := ',') rfl (by decide) entries fun x hx => ?_
      rcases List.mem_append.1 hx with hx | hx
      · obtain ⟨u, hu, rfl⟩ := List.mem_map.1 hx
        exact hthis u hu
      · obtain ⟨p, hp, rfl⟩ := List.mem_map.1 hx
        exact hparams p hp
    have hrender : Ty.renderThis layout depth thisType =
        thisType.toList.map fun u => "this: " ++ u.render layout depth := by
      cases thisType <;> rfl
    rw [Ty.piecesThis_eq, Ty.piecesParams_eq, Ty.renderParams_eq, hrender]
    simpa only [entries, List.map_append, List.map_map, Function.comp_def] using hjoined
  rw [Ty.renderSignature, Ty.piecesSignature, Ty.renderTypeParams_eq, Ty.piecesTypeParams_eq]
  have hangled := (Writes.angled htypeParams).then_ .lparen (c := '(') rfl (by decide)
  have hall := (hangled.append_free hentries).then_ .rparen (c := ')') rfl (by decide)
  refine hall.cast ?_
  simp only [List.append_assoc, List.cons_append, List.nil_append]

/-- A signature begins with a bracket. -/
theorem Ty.meets_signature {β γ : Char → Bool} {s : Signature Ty} (rest : String)
    (hparen : β '(' = true) (hangle : β '<' = true) :
    Meets β (Ty.renderSignature layout depth s ++ rest) γ := by
  obtain ⟨typeParams, thisType, params⟩ := s
  cases typeParams with
  | nil =>
    have htext : ∃ cs, (Ty.renderSignature layout depth ⟨[], thisType, params⟩ ++ rest).toList =
        '(' :: cs := by
      rw [Ty.renderSignature]
      simp only [String.toList_append]
      exact ⟨_, rfl⟩
    exact .of_head htext.choose_spec hparen
  | cons p ps =>
    have htext : ∃ cs, (Ty.renderSignature layout depth ⟨p :: ps, thisType, params⟩ ++
        rest).toList = '<' :: cs := by
      rw [Ty.renderSignature, Ty.renderTypeParams, angled, List.isEmpty_cons,
        if_neg Bool.false_ne_true]
      simp only [String.toList_append]
      exact ⟨_, rfl⟩
    exact .of_head htext.choose_spec hangle

/-- The text of a tuple element is its pieces. -/
theorem TupleElement.writes_text (depth : Nat) {e : TupleElement Ty} (h : e.Fits)
    (htype : e.type.Written layout) :
    Writes apart (e.text layout depth) e.pieces := by
  obtain ⟨type, name, optional, rest⟩ := e
  have hrest := Writes.ellipsis.whenever rest
  cases name with
  | none =>
    have hoptional := (htype depth).append (γ := apart)
      (Writes.question.whenever optional).of_free
      (meets_textIf (c := '?') rfl (by decide) fun _ h => h)
    exact hrest.append_free hoptional
  | some name =>
    have hword : isWord name = true := (Bool.and_eq_true_iff.1 (h.name name rfl)).1
    have hname := (Writes.word hword).mono fun _ hc => notWord_of_apart (apart_of_tight hc)
    have hcolon := (hname.optional optional).then_ .colon (c := ':') rfl (by decide)
    have hall := hrest.append_free (hcolon.append_free (htype depth))
    refine hall.cast ?_
    simp only [TupleElement.pieces, List.append_assoc, List.cons_append, List.nil_append]

/-- The word in front of an accessor. -/
theorem MethodKind.writes_lead (kind : MethodKind) : Writes free kind.lead kind.pieces := by
  have hword (w : String) (h : isWord w = true) : Writes free (w ++ " ") [.token (wordKind w)] :=
    (Writes.word h).then_ .space (c := ' ') rfl (by decide)
  cases kind with
  | method => exact .empty
  | get => exact hword "get" (by decide)
  | set => exact hword "set" (by decide)

/-- The comments and the indentation in front of a member. -/
theorem Layout.writes_lead (layout : Layout) (depth : Nat)
    (hindent : IsIndent layout.unit.toList) {docs : Docs} (h : ∀ doc ∈ docs, IsDoc doc) :
    Writes free (layout.docBlock depth docs ++ layout.indent depth) (docs.map .doc) :=
  ((layout.writes_docBlock hindent depth h).append_free
    (.indent (layout.isIndent_indent hindent depth))).cast (List.append_nil _)

/-- The text of a call signature with its return type and the end of its line. -/
theorem Callable.writes_text (depth : Nat) {c : Callable Ty} (h : c.Fits)
    (hparts : ∀ u, .type u ∈ c.parts → u.Written layout) :
    Writes free (Ty.renderSignature layout depth c.signature ++
      Ty.renderAfter layout depth ": " c.returns ++ ";\n") c.pieces := by
  obtain ⟨hpartsSignature, hpartsReturns⟩ := Callable.forall_parts.1 hparts
  have hsignature := c.signature.writes_text depth h.signature hpartsSignature
  have hreturns := Ty.writes_after _ depth c.returns .colon hpartsReturns
  have hall := (hsignature.append_free hreturns).then_ .lineEnd (c := ';') rfl (by decide)
  refine hall.cast ?_
  simp only [Callable.pieces, List.append_assoc]

/-- The text of a member is its pieces. There is one case for each kind of member. -/
theorem Member.writes_text (depth : Nat) (hindent : IsIndent layout.unit.toList) {m : Member Ty}
    (h : m.Fits) (hparts : ∀ u, .type u ∈ m.parts → u.Written layout) :
    Writes free (m.text layout depth) m.pieces := by
  have hreadonly (condition : Bool) := Writes.readonlySpace.whenever condition
  cases h with
  | @property p docs name type =>
    have htype := hparts p.type (List.mem_singleton.2 rfl) depth
    have hlead := (layout.writes_lead depth hindent docs).append_free
      (hreadonly p.readonly)
    have hname := (hlead.append_free name.property.writes).optional p.optional
    have hcolon := hname.then_ .colon (c := ':') rfl (by decide)
    have hall := (hcolon.append_free htype).then_ .lineEnd (c := ';') rfl (by decide)
    rw [Member.text, Ty.renderMembers, Ty.renderMembers, String.append_empty]
    refine hall.cast ?_
    simp only [Member.pieces, Member.docs, Member.body, List.append_assoc, List.cons_append,
      List.nil_append]
  | @method d name callable _ =>
    have hcallable := Callable.writes_text depth callable hparts
    have hlead := (layout.writes_lead depth hindent callable.docs).append_free
      d.kind.writes_lead
    have hname := (hlead.append_free name.property.writes).optional d.optional
    rw [String.append_assoc] at hcallable
    have hall := hname.append hcallable (Ty.meets_signature _ (by decide) (by decide))
    rw [Member.text, Ty.renderMembers, Ty.renderMembers, String.append_empty]
    simp only [String.append_assoc] at hall ⊢
    refine hall.cast ?_
    simp only [Member.pieces, Member.docs, Member.body, List.append_assoc, List.cons_append,
      List.nil_append]
  | @call c callable =>
    have hcallable := Callable.writes_text depth callable hparts
    have hall := (layout.writes_lead depth hindent callable.docs).append_free hcallable
    rw [Member.text, Ty.renderMembers, Ty.renderMembers, String.append_empty]
    simp only [String.append_assoc] at hall ⊢
    exact hall
  | @construct c callable _ =>
    have hnew : Writes free "new " [word .new] := .keywordSpace .new
    have hcallable := Callable.writes_text depth callable hparts
    have hall := (layout.writes_lead depth hindent callable.docs).append_free
      (hnew.append_free hcallable)
    rw [Member.text, Ty.renderMembers, Ty.renderMembers, String.append_empty]
    simp only [String.append_assoc] at hall ⊢
    exact hall
  | @index i index =>
    obtain ⟨hkeyType, hvalue⟩ := IndexSignature.forall_parts.1 hparts
    have hkey : isWord i.key = true := (Bool.and_eq_true_iff.1 index.key).1
    have hclose : Writes free "]: " [mark .rbracket, mark .colon] :=
      (Writes.rbracket.append_free .colon).spelled rfl
    have hlead := ((layout.writes_lead depth hindent index.docs).append_free
      (hreadonly i.readonly)).append_free .lbracket
    have hname := (hlead.append_free (.word hkey)).then_ .colon (c := ':') rfl (by decide)
    have hclosed := (hname.append_free (hkeyType depth)).then_ hclose (c := ']') rfl (by decide)
    have hall := (hclosed.append_free (hvalue depth)).then_ .lineEnd (c := ';') rfl (by decide)
    rw [Member.text, Ty.renderMembers, Ty.renderMembers, String.append_empty]
    refine hall.cast ?_
    simp only [Member.pieces, Member.docs, Member.body, IndexSignature.pieces, List.append_assoc,
      List.cons_append, List.nil_append]

/-- The text of some members is their pieces. -/
theorem Ty.writes_members (layout : Layout) (depth : Nat) (hindent : IsIndent layout.unit.toList)
    {ms : List (Member Ty)} (h : ∀ m ∈ ms, m.Fits)
    (hparts : ∀ m ∈ ms, ∀ u, .type u ∈ m.parts → u.Written layout) :
    Writes free (Ty.renderMembers layout depth ms) (Ty.piecesMembers ms) := by
  rw [Ty.renderMembers_eq, Ty.piecesMembers_eq]
  exact .join _ fun m hm => Member.writes_text depth hindent (h m hm) (hparts m hm)

/-! ## Types -/

/-- A dotted name in front of type arguments. -/
theorem Token.IsDottedName.writes {first : String → Prop} {name : String}
    (h : IsDottedName first name) : Writes apart name (dotted name) :=
  (Writes.dotted h.1).mono fun _ => notWord_of_apart

/-- A dotted name after a dot. -/
theorem Token.writes_dottedRest {name : String} (h : isDotted name = true) :
    Writes apart ("." ++ name) (dottedRest (nameWords name)) := by
  obtain ⟨w, ws, hwords⟩ := List.exists_cons_of_ne_nil (nameWords_ne_nil name)
  obtain ⟨hpieces, hname⟩ := Parser.dotted_eq hwords
  have hw : isWord w = true :=
    List.all_eq_true.1 h w (hwords ▸ List.mem_cons_self ..)
  obtain ⟨hne, hdot⟩ := dot_not_mem hw
  obtain ⟨c, cs, hcs⟩ := List.exists_cons_of_ne_nil hne
  have htext : name.toList = c :: (cs ++ (String.join (ws.map ("." ++ ·))).toList) := by
    rw [hname, String.toList_append, hcs, List.cons_append]
  have hc : c ≠ '.' := by
    rintro rfl
    exact hdot (hcs ▸ List.mem_cons_self ..)
  have hall := ((Writes.dotted h).dot htext hc).mono fun _ => notWord_of_apart
  rw [hpieces] at hall
  rw [hwords]
  exact hall

/-- The text of type arguments is their pieces. -/
theorem Ty.writes_args (depth : Nat) {args : List Ty} (h : ∀ t ∈ args, t.Written layout) :
    Writes apart (angled (Ty.renderList layout depth args)) (angledBy (Ty.piecesList args)) := by
  rw [Ty.renderList_eq, Ty.piecesList_eq]
  exact .angled fun t ht => h t ht depth

/-- A number, with or without a minus sign, is its pieces. -/
theorem Token.IsNumberType.writes {text : String} (h : IsNumberType text) :
    Writes apart text (numberPieces text) := by
  rcases h.pieces_eq with ⟨hnumber, hpieces⟩ | ⟨digits, htext, hdigits, hpieces⟩
  · rw [hpieces]
    exact (Cuts.number hnumber).writes_token
  · rw [hpieces, htext]
    exact Writes.minus.append_free (Cuts.number hdigits).writes_token

/-- A template is one token. -/
theorem Token.IsTemplate.writes {raw : String} (h : IsTemplate raw) :
    Writes free ("\x60" ++ raw ++ "\x60") [.token (.template raw)] := by
  have htext : ("\x60" ++ raw ++ "\x60").toList = '\x60' :: (raw.toList ++ ['\x60']) := by
    rw [String.toList_append, String.toList_append]
    rfl
  refine (Cuts.of_lexeme htext fun r _ => ?_).writes_token
  have hread := h r
  rw [List.append_assoc, List.singleton_append, List.length_append, List.length_singleton]
  have hopening : simplePunct? '\x60' = none := rfl
  rw [lexeme, hopening]
  dsimp only
  rw [if_pos rfl, hread]
  dsimp only
  rw [List.take_left, String.ofList_toList, if_pos rfl]

/-- A modifier of a mapped type, with its sign in front of what it is about. -/
theorem MappedModifier.writes_sign {text : String} {kind : Kind}
    (htext : Writes free text [.token kind]) (m : Option MappedModifier) :
    Writes free (match m with
      | some m => m.sign ++ text
      | none => "") (MappedModifier.pieces kind m) := by
  cases m with
  | none => exact .empty
  | some m =>
    cases m with
    | add => exact Writes.plus.append_free htext
    | remove => exact Writes.minus.append_free htext
    | preserve => exact Writes.empty.append_free htext

/-! ### Cases -/

namespace Ty

/-- Types with an operator between them. -/
theorem writes_operands (depth : Nat) (text : String) {c : Char} {p : Punct} {types : List Ty}
    (htext : text.toList = [c]) (hp : simplePunct? c = some p)
    (h : ∀ t ∈ types, t.Written layout) :
    Writes apart (Text.joinWith (" " ++ text ++ " ") (renderList layout depth types))
      (separatedBy p (piecesList types)) := by
  have hblank : (" " ++ text ++ " ").toList = ' ' :: (text.toList ++ [' ']) := by
    rw [String.toList_append, String.toList_append]
    rfl
  rw [renderList_eq, piecesList_eq]
  exact Writes.joined (.spacedMark text htext hp) hblank (by decide) types fun t ht => h t ht depth

/-- A signature, an arrow and a type. -/
theorem written_function {s : Signature Ty} {returns : Ty} (hs : s.Fits)
    (hsignature : ∀ u, .type u ∈ s.parts → u.Written layout) (hreturns : returns.Written layout) :
    (Ty.function s returns).Written layout := by
  intro depth
  have hlead := s.writes_text depth hs hsignature
  refine ((hlead.append_free .spacedArrow).append_free (hreturns depth)).cast ?_
  simp only [Ty.pieces, List.append_assoc, List.cons_append, List.nil_append]

/-- A constructor type is written as its pieces. -/
theorem written_construct {isAbstract : Bool} {s : Signature Ty} {returns : Ty} (hs : s.Fits)
    (hsignature : ∀ u, .type u ∈ s.parts → u.Written layout) (hreturns : returns.Written layout) :
    (Ty.construct isAbstract s returns).Written layout := by
  intro depth
  have hlead := s.writes_text depth hs hsignature
  have habstract : Writes free "abstract " [word .abstract] := .keywordSpace .abstract
  have hnew : Writes free "new " [word .new] := .keywordSpace .new
  have hwords := (habstract.whenever isAbstract).append_free hnew
  refine (((hwords.append_free hlead).append_free .spacedArrow).append_free
    (hreturns depth)).cast ?_
  simp only [Ty.pieces, List.append_assoc, List.cons_append, List.nil_append]

/-- Without members an object type is written on one line. -/
theorem written_object (hindent : IsIndent layout.unit.toList) {members : List (Member Ty)}
    (hmembers : ∀ m ∈ members, m.Fits)
    (hparts : ∀ m ∈ members, ∀ u, .type u ∈ m.parts → u.Written layout) :
    (Ty.object members).Written layout := by
  intro depth
  have hbraces : Writes free "\x7b\x7d" [mark .lbrace, mark .rbrace] :=
    (Writes.lbrace.append_free .rbrace).spelled rfl
  have hline : Writes free "\x7b\n" [mark .lbrace] :=
    (Writes.lbrace.append_free .newline).spelled rfl
  have hlines := writes_members layout (depth + 1) hindent hmembers hparts
  cases members with
  | nil => exact hbraces.of_free
  | cons m ms =>
    have hall := ((hline.append_free hlines).append_free
      (.indent (layout.isIndent_indent hindent depth))).append_free .rbrace
    refine hall.of_free.cast ?_
    simp only [Ty.pieces, List.append_nil, List.cons_append, List.nil_append]

/-- A tuple is written as its pieces. -/
theorem written_tuple {elements : List (TupleElement Ty)} (helements : ∀ e ∈ elements, e.Fits)
    (hparts : ∀ e ∈ elements, e.type.Written layout) : (Ty.tuple elements).Written layout := by
  intro depth
  show Writes apart ("[" ++ Text.joinWith ", " (renderElements layout depth elements) ++ "]")
    (mark .lbracket :: (separatedBy .comma (piecesElements elements) ++ [mark .rbracket]))
  rw [renderElements_eq, piecesElements_eq]
  have hlist := Writes.separated elements fun e he =>
    e.writes_text depth (helements e he) (hparts e he)
  exact ((Writes.lbracket.append_free hlist).then_ .rbracket (c := ']') rfl (by decide)).of_free

/-- An indexed type is written as its pieces. -/
theorem written_index {target key : Ty} (htarget : target.Written layout)
    (hkey : key.Written layout) : (Ty.index target key).Written layout := by
  intro depth
  have hopened := (htarget depth).then_ .lbracket (c := '[') rfl (by decide)
  have hall := (hopened.append_free (hkey depth)).then_ .rbracket (c := ']') rfl (by decide)
  refine hall.of_free.cast ?_
  simp only [Ty.pieces, List.append_assoc, List.cons_append, List.nil_append]

/-- A conditional type is written as its pieces. -/
theorem written_conditional {check bound whenTrue whenFalse : Ty} (hcheck : check.Written layout)
    (hbound : bound.Written layout) (htrue : whenTrue.Written layout)
    (hfalse : whenFalse.Written layout) :
    (Ty.conditional check bound whenTrue whenFalse).Written layout := by
  intro depth
  have hquestion : Writes free " ? " [mark .question] :=
    (Writes.spacedMark "?" (c := '?') rfl rfl).spelled rfl
  have hcolon : Writes free " : " [mark .colon] := (Writes.space.append_free .colon).spelled rfl
  have hextends := (hcheck depth).then_ .spacedExtends (c := ' ') rfl (by decide)
  have hthen := (hextends.append_free (hbound depth)).then_ hquestion (c := ' ') rfl (by decide)
  have helse := (hthen.append_free (htrue depth)).then_ hcolon (c := ' ') rfl (by decide)
  refine (helse.append_free (hfalse depth)).cast ?_
  simp only [Ty.pieces, List.append_assoc, List.cons_append, List.nil_append]

/-- A mapped type is written as its pieces, on several lines. -/
theorem written_mapped {key : String} {keys : Ty} {nameType : Option Ty} {value : Ty}
    {readonlyMod optionalMod : Option MappedModifier} (hkey : isIdent key = true)
    (hkeys : keys.Written layout) (hname : ∀ t ∈ nameType, t.Written layout)
    (hvalue : value.Written layout) :
    (Ty.mapped key keys nameType value readonlyMod optionalMod).Written layout := by
  intro depth
  have hkeyword : isWord key = true := (Bool.and_eq_true_iff.1 hkey).1
  have hbrace : Writes free "\x7b " [mark .lbrace] :=
    (Writes.lbrace.append_free .space).spelled rfl
  have hin : Writes free " in " [word .inKw] := .spacedKeyword .inKw
  have hend : Writes free "; \x7d" [mark .semicolon, mark .rbrace] :=
    ((Writes.semicolon.append_free .space).append_free .rbrace).spelled rfl
  have hreadonly := MappedModifier.writes_sign .readonlySpace readonlyMod
  have hoptional := MappedModifier.writes_sign .question optionalMod
  have has := writes_after _ depth nameType (.spacedKeyword .asKw) hname
  -- Between the square brackets stand the key, its types and the type of the new name.
  have hopened := ((hbrace.append_free hreadonly).append_free .lbracket).append_free
    (.word hkeyword)
  have hkeyed := (hopened.then_ hin (c := ' ') rfl (by decide)).append_free (hkeys depth)
  have hnamed := hkeyed.append has (meets_after (c := ' ') rfl (by decide) fun _ h => h)
  have hclosed := hnamed.then_ .rbracket (c := ']') rfl (by decide)
  have hrest := ((hclosed.append_free hoptional).append_free .colon).append_free (hvalue depth)
  have hall := hrest.then_ hend (c := ';') rfl (by decide)
  refine hall.of_free.cast ?_
  simp only [Ty.pieces, List.append_assoc, List.cons_append, List.nil_append]

/-- An import type is written as its pieces. -/
theorem written_imported {module : String} {qualifier : Option String} {args : List Ty}
    {isTypeof : Bool} (hqualifier : ∀ q ∈ qualifier, isDotted q = true)
    (hargs : ∀ t ∈ args, t.Written layout) :
    (Ty.imported module qualifier args isTypeof).Written layout := by
  intro depth
  have htypeof : Writes free "typeof " [word .typeof] := .keywordSpace .typeof
  have himport : Writes free "import(" [word .importKw, mark .lparen] :=
    ((Writes.keyword .importKw).then_ .lparen (c := '(') rfl (by decide)).spelled rfl
  have hmodule := (((htypeof.whenever isTypeof).append_free himport).append_free
    (.quote module)).append_free .rparen
  have hangled := writes_args depth hargs
  cases qualifier with
  | none =>
    have hall := (hmodule.append_free .empty).append hangled (meets_angled _)
    refine hall.cast ?_
    simp only [Ty.pieces, List.append_assoc, List.cons_append, List.nil_append]
  | some q =>
    have hq := Token.writes_dottedRest (hqualifier q rfl)
    have hall := (hmodule.append_free hq).append hangled (meets_angled _)
    refine hall.cast ?_
    simp only [Ty.pieces, List.append_assoc, List.cons_append, List.nil_append]

/-- A predicate is written as its pieces. -/
theorem written_predicate {asserts : Bool} {param : String} {type : Option Ty}
    (hword : isWord param = true) (htype : ∀ t ∈ type, t.Written layout) :
    (Ty.predicate asserts param type).Written layout := by
  intro depth
  have hasserts : Writes free "asserts " [.token (.ident "asserts")] :=
    ((Writes.word (w := "asserts") (by decide)).then_ .space (c := ' ') rfl
      (by decide)).spelled rfl
  have his := writes_after _ depth type (.spacedKeyword .is) htype
  have hall := ((hasserts.whenever asserts).append_free (.word hword)).append his
    (meets_after (c := ' ') rfl (by decide) fun _ => notWord_of_apart)
  refine hall.cast ?_
  simp only [Ty.pieces, List.append_assoc, List.cons_append, List.nil_append]

/-! ### All types -/

/-- The text of a type at any depth is its pieces. -/
theorem written (layout : Layout) (hindent : IsIndent layout.unit.toList) (t : Ty)
    (h : t.Canonical) : t.Written layout := by
  induction t using Ty.parts_induction with
  | step t ih =>
  have hparts : ∀ u, .type u ∈ t.parts → u.Written layout := fun u hu => ih u hu (h.part hu)
  have hfits := h.fits
  clear ih h
  cases hfits with
  | named hname =>
    intro depth
    exact hname.writes.append (writes_args depth (Part.forall_map.1 hparts)) (meets_angled _)
  | primitive p =>
    have hword : isWord p.text = true := by cases p <;> decide
    exact fun _ => (Writes.word hword).mono fun _ => notWord_of_apart
  | string value => exact fun _ => (Writes.quote value).of_free
  | number h => exact fun _ => h.writes
  | boolean value =>
    cases value with
    | true => exact fun _ => (Writes.keyword .trueKw).mono fun _ => notWord_of_apart
    | false => exact fun _ => (Writes.keyword .falseKw).mono fun _ => notWord_of_apart
  | union =>
    exact fun depth => writes_operands depth "|" (c := '|') rfl rfl
      (Part.forall_map.1 hparts)
  | intersection =>
    exact fun depth => writes_operands depth "&" (c := '&') rfl rfl
      (Part.forall_map.1 hparts)
  | function hsignature =>
    obtain ⟨hs, hreturns⟩ := forall_parts_function.1 hparts
    exact written_function hsignature hs hreturns
  | construct hsignature =>
    obtain ⟨hs, hreturns⟩ := forall_parts_construct.1 hparts
    exact written_construct hsignature hs hreturns
  | object hmembers => exact written_object hindent hmembers (Part.forall_flatMap.1 hparts)
  | array =>
    intro depth
    have hbrackets : Writes free "[]" [mark .lbracket, mark .rbracket] :=
      (Writes.lbracket.append_free .rbracket).spelled rfl
    have helement := Part.forall_singleton.1 hparts depth
    exact (helement.then_ hbrackets (c := '[') rfl (by decide)).of_free
  | tuple helements => exact written_tuple helements (Part.forall_map.1 hparts)
  | typeOf hname =>
    have hlead : Writes free "typeof " [word .typeof] := .keywordSpace .typeof
    exact fun _ => hlead.append_free hname.writes
  | keyOf =>
    have hlead : Writes free "keyof " [word .keyof] := .keywordSpace .keyof
    exact fun depth => hlead.append_free (Part.forall_singleton.1 hparts depth)
  | readonly =>
    exact fun depth => Writes.readonlySpace.append_free (Part.forall_singleton.1 hparts depth)
  | uniqueSymbol =>
    have hunique : Writes free "unique " [.token (.ident "unique")] :=
      ((Writes.word (w := "unique") (by decide)).then_ .space (c := ' ') rfl
        (by decide)).spelled rfl
    exact fun _ => (hunique.append_free (.keyword .symbol)).mono fun _ => notWord_of_apart
  | index =>
    obtain ⟨htarget, hkey⟩ := forall_parts_index.1 hparts
    exact written_index htarget hkey
  | conditional =>
    obtain ⟨hcheck, hbound, htrue, hfalse⟩ := forall_parts_conditional.1 hparts
    exact written_conditional hcheck hbound htrue hfalse
  | mapped hkey =>
    obtain ⟨hkeys, hname, hvalue⟩ := forall_parts_mapped.1 hparts
    exact written_mapped hkey hkeys hname hvalue
  | infer hname =>
    have hword := (Bool.and_eq_true_iff.1 hname).1
    have hlead : Writes free "infer " [word .infer] := .keywordSpace .infer
    exact fun _ => (hlead.append_free (.word hword)).mono fun _ => notWord_of_apart
  | template h => exact fun _ => h.writes.of_free
  | imported hqualifier => exact written_imported hqualifier (Part.forall_map.1 hparts)
  | predicate hword => exact written_predicate hword (forall_optionParts.1 hparts)
  | paren =>
    intro depth
    have hinner := Writes.lparen.append_free (Part.forall_singleton.1 hparts depth)
    exact (hinner.then_ .rparen (c := ')') rfl (by decide)).of_free
  | this => exact fun _ => (Writes.keyword .this).mono fun _ => notWord_of_apart

end Ty

end

end DeclLayer
