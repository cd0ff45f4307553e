import DeclLayer.Proofs.Parse.Types
import DeclLayer.Proofs.Render.TypeText
import DeclLayer.Proofs.Token.Plain

/-!
# Types round-trip through text

A canonical type is read back from its text (`Ty.parse_text_canonical`); `Ty.Canonical` covers all
forms of types and asks for just what the reader needs.

`Ty.Grammar` generates the canonical types that are built from plain names, level of binding by
level of binding. Whatever it generates is read back as it was written (`Ty.parse_text`).
-/

namespace DeclLayer

open Token DeclLayer.Parser Literal Comment

/-! ## Canonical types -/

/-- A text is laid out as the pieces that it writes. -/
theorem Token.Writes.laid {β : Char → Bool} {text : String} {ps : List Piece}
    (h : Writes β text ps) : Laid (lexemes text.toList) ps := by
  have hlaid := h [] [] follows_nil (lexemes_nil ▸ .nil)
  rwa [List.append_nil, List.append_nil] at hlaid

/-- A canonical type is read back from its text. -/
theorem Ty.parse_text_canonical {t : Ty} (h : t.Canonical) (hrank : 1 ≤ t.rank) :
    Ty.parse t.text = .ok t := by
  have hindent : IsIndent Layout.standard.unit.toList := by
    intro c hc
    have hunit : Layout.standard.unit.toList = [' ', ' ', ' ', ' '] := rfl
    simp only [hunit, List.mem_cons, List.not_mem_nil, or_false, or_self] at hc
    exact .inl hc
  have hspells := Cursor.spells_start (t.written _ hindent h 0).laid
  have hread : Reads [] (do
      let ty ← Parser.type
      let kind ← Parser.peek
      if kind == .eof then return ty else Parser.fail (.unexpectedAfterType kind)) t.pieces t [] :=
    ((t.read_type h).ends hrank rfl).bind_end (Reads.bind_nil Reads.peek (Reads.pure t))
  obtain ⟨c, hresult, -⟩ := hread _ ((List.append_nil t.pieces).symm ▸ hspells)
  show Except.map Prod.fst _ = _
  rw [show StateT.run _ (Cursor.start t.text) = _ from hresult]
  rfl

/-! ## A grammar of types -/

/-- The levels of binding, from the tightest to the loosest. -/
inductive Ty.Level where
  | primary
  | suffixed
  | operator
  | intersection
  | union
  | type
  /-- A type in return position, where it can be a predicate. -/
  | returned

/-- The types of a level. -/
inductive Ty.Grammar : Ty.Level → Ty → Prop where
  | named {name : String} {args : List Ty} (hname : IsPlainDotted name)
    (hargs : ∀ t ∈ args, Grammar .type t) : Grammar .primary (.named name args)
  | primitive (p : Primitive) : Grammar .primary (.primitive p)
  | string (value : String) : Grammar .primary (.string value)
  | number {digits : String} (h : isDecimal digits = true) : Grammar .primary (.number digits)
  | negative {digits : String} (h : isDecimal digits = true) :
    Grammar .primary (.number ("-" ++ digits))
  | boolean (value : Bool) : Grammar .primary (.boolean value)
  | this : Grammar .primary .this
  | typeOf {name : String} (hname : IsPlainDotted name) : Grammar .primary (.typeOf name)
  | paren {t : Ty} (h : Grammar .type t) : Grammar .primary (.paren t)
  | tuple {elements : List (TupleElement Ty)}
    (hnames : ∀ e ∈ elements, ∀ name ∈ e.name, isPlainName name = true)
    (htypes : ∀ e ∈ elements, Grammar .type e.type) : Grammar .primary (.tuple elements)
  | suffixed {t : Ty} (h : Grammar .primary t) : Grammar .suffixed t
  | array {t : Ty} (h : Grammar .suffixed t) : Grammar .suffixed (.array t)
  | index {target key : Ty} (htarget : Grammar .suffixed target) (hkey : Grammar .type key) :
    Grammar .suffixed (.index target key)
  | operator {t : Ty} (h : Grammar .suffixed t) : Grammar .operator t
  | keyOf {t : Ty} (h : Grammar .operator t) : Grammar .operator (.keyOf t)
  | readonly {t : Ty} (h : Grammar .operator t) : Grammar .operator (.readonly t)
  | uniqueSymbol : Grammar .operator .uniqueSymbol
  | infer {name : String} (hname : isPlainName name = true) : Grammar .operator (.infer name)
  | single {t : Ty} (h : Grammar .operator t) : Grammar .intersection t
  | intersection {types : List Ty} (hlength : 2 ≤ types.length)
    (h : ∀ t ∈ types, Grammar .operator t) : Grammar .intersection (.intersection types)
  | alternative {t : Ty} (h : Grammar .intersection t) : Grammar .union t
  | union {types : List Ty} (hlength : 2 ≤ types.length)
    (h : ∀ t ∈ types, Grammar .intersection t) : Grammar .union (.union types)
  | type {t : Ty} (h : Grammar .union t) : Grammar .type t
  | conditional {check bound whenTrue whenFalse : Ty} (hcheck : Grammar .union check)
    (hbound : Grammar .union bound) (htrue : Grammar .type whenTrue)
    (hfalse : Grammar .type whenFalse) : Grammar .type (.conditional check bound whenTrue whenFalse)
  | function {s : Signature Ty} {returns : Ty}
    (htypeParams : ∀ p ∈ s.typeParams, isPlainName p.name = true)
    (hconstraints : ∀ p ∈ s.typeParams, ∀ t ∈ p.constraint, Grammar .type t)
    (hdefaults : ∀ p ∈ s.typeParams, ∀ t ∈ p.default, Grammar .type t)
    (hthis : ∀ t ∈ s.thisType, Grammar .type t)
    (hparams : ∀ p ∈ s.params, isPlainName p.name = true)
    (htypes : ∀ p ∈ s.params, ∀ t ∈ p.type, Grammar .type t)
    (hreturns : Grammar .returned returns) : Grammar .type (.function s returns)
  | returned {t : Ty} (h : Grammar .type t) : Grammar .returned t
  | predicate {param : String} {t : Ty}
    (hparam : param = "this" ∨ isPlainName param = true) (hasserts : param ≠ "asserts")
    (h : Grammar .type t) : Grammar .returned (.predicate false param (some t))
  | assertion {param : String} {t : Option Ty}
    (hparam : param = "this" ∨ isPlainName param = true) (h : ∀ u ∈ t, Grammar .type u) :
    Grammar .returned (.predicate true param t)

/-- The rank of the types of a level. -/
def Ty.Level.rank : Ty.Level → Nat
  | .primary | .suffixed => 5
  | .operator => 4
  | .intersection => 3
  | .union => 2
  | .type => 1
  | .returned => 0

/-! ### Its types are canonical -/

/-- A plain name is an identifier. -/
theorem Token.isIdent_of_isPlainName {name : String} (h : isPlainName name = true) :
    isIdent name = true := by
  rw [isIdent, isWord_of_isPlainName h, wordKind_of_isPlainName h]
  rfl

/-- The word `is` is not among the first two tokens, so they do not begin a predicate. -/
def Token.NoPredicate (ks : List Kind) : Prop :=
  ∀ kind ∈ ks.take 2, kind ≠ .keyword .is

namespace Token.NoPredicate

variable {ks ms : List Kind} {kind : Kind}

/-- No tokens hold no `is`. -/
theorem nil : NoPredicate [] := nofun

/-- A token other than `is` in front of tokens without it. -/
theorem cons (hkind : (kind != .keyword .is) = true) (h : NoPredicate ks) :
    NoPredicate (kind :: ks) := by
  intro κ hκ
  rcases List.mem_cons.1 hκ with rfl | hκ
  · exact bne_iff_ne.1 hkind
  · exact h κ (List.take_subset_take_left ks (by decide) hκ)

/-- Tokens without `is` in a row. -/
theorem append (hks : NoPredicate ks) (hms : NoPredicate ms) : NoPredicate (ks ++ ms) := by
  intro κ hκ
  rw [List.take_append, List.mem_append] at hκ
  rcases hκ with hκ | hκ
  · exact hks κ hκ
  · exact hms κ (List.take_subset_take_left ms (by omega) hκ)

/-- Two tokens are enough. -/
theorem append_of_length (hks : NoPredicate ks) (hlength : 2 ≤ ks.length) :
    NoPredicate (ks ++ ms) := by
  intro κ hκ
  rw [List.take_append_of_le_length hlength] at hκ
  exact hks κ hκ

/-- A token other than `is` that may be missing. -/
theorem optional (hkind : (kind != .keyword .is) = true) (condition : Bool) :
    NoPredicate (kinds (piecesIf condition [.token kind])) := by
  cases condition with
  | true => exact cons hkind nil
  | false => exact nil

/-- Parts without `is` and separators between them. -/
theorem separatedBy {separator : Punct} : ∀ {parts : List (List Piece)},
    (∀ ps ∈ parts, NoPredicate (kinds ps)) → NoPredicate (kinds (Token.separatedBy separator parts))
  | [], _ => nil
  | ps :: parts, h => by
    obtain ⟨hps, hparts⟩ := List.forall_mem_cons.1 h
    rw [Token.separatedBy, kinds_append]
    refine hps.append ?_
    clear h hps
    induction parts with
    | nil => exact nil
    | cons qs parts ih =>
      obtain ⟨hqs, hrest⟩ := List.forall_mem_cons.1 hparts
      rw [List.flatMap_cons, kinds_append, kinds_token]
      exact (cons rfl hqs).append (ih hrest)

/-- Parts without `is` in angle brackets. -/
theorem angledBy {parts : List (List Piece)} (h : ∀ ps ∈ parts, NoPredicate (kinds ps)) :
    NoPredicate (kinds (Token.angledBy parts)) := by
  rw [Token.angledBy]
  split
  · exact nil
  · rw [kinds_token, kinds_append]
    exact cons rfl ((separatedBy h).append (cons rfl nil))

/-- A plain name is no `is`. -/
theorem plainName {name : String} (h : isPlainName name = true) :
    (wordKind name != .keyword .is) = true := by
  rw [wordKind_of_isPlainName h]
  rfl

/-- A number holds no `is`. -/
theorem number {text : String} (h : IsNumberType text) :
    NoPredicate (kinds (numberPieces text)) := by
  rcases h.pieces_eq with ⟨-, hpieces⟩ | ⟨digits, -, -, hpieces⟩
  · rw [hpieces]
    exact cons rfl nil
  · rw [hpieces]
    exact cons rfl (cons rfl nil)

/-- A plain dotted name holds no `is`. -/
theorem dotted {name : String} (h : IsPlainDotted name) :
    NoPredicate (kinds (Token.dotted name)) := by
  refine separatedBy fun ps hps => ?_
  obtain ⟨w, hw, rfl⟩ := List.mem_map.1 hps
  exact cons (plainName (h.words w hw)) nil

/-- A type without `is` that may be missing, with a token in front of it. -/
theorem after {lead : Kind} (hlead : (lead != .keyword .is) = true) {t : Option Ty}
    (h : ∀ u ∈ t, NoPredicate (kinds u.pieces)) : NoPredicate (kinds (Ty.piecesAfter lead t)) := by
  cases t with
  | none => exact nil
  | some u => exact cons hlead (h u rfl)

/-- The pieces of types without `is`. -/
theorem types {types : List Ty} (h : ∀ t ∈ types, NoPredicate (kinds t.pieces)) :
    ∀ ps ∈ Ty.piecesList types, NoPredicate (kinds ps) := by
  rw [Ty.piecesList_eq]
  intro ps hps
  obtain ⟨t, ht, rfl⟩ := List.mem_map.1 hps
  exact h t ht

/-- A tuple element with a plain name and a type without `is`. -/
theorem element {e : TupleElement Ty} (hname : ∀ name ∈ e.name, isPlainName name = true)
    (h : NoPredicate (kinds e.type.pieces)) : NoPredicate (kinds e.pieces) := by
  obtain ⟨type, name, isOptional, rest⟩ := e
  cases name with
  | none =>
    rw [TupleElement.pieces, kinds_append, kinds_append]
    exact (optional rfl _).append (h.append (optional rfl _))
  | some name =>
    rw [TupleElement.pieces, kinds_append, kinds_token, kinds_append, kinds_token]
    exact (optional rfl _).append
      (cons (plainName (hname name rfl)) ((optional rfl _).append (cons rfl h)))

/-- A signature with plain names and types without `is`. -/
theorem signature {s : Signature Ty} (htypeParams : ∀ p ∈ s.typeParams, isPlainName p.name = true)
    (hconstraints : ∀ p ∈ s.typeParams, ∀ t ∈ p.constraint, NoPredicate (kinds t.pieces))
    (hdefaults : ∀ p ∈ s.typeParams, ∀ t ∈ p.default, NoPredicate (kinds t.pieces))
    (hthis : ∀ t ∈ s.thisType, NoPredicate (kinds t.pieces))
    (hparams : ∀ p ∈ s.params, isPlainName p.name = true)
    (htypes : ∀ p ∈ s.params, ∀ t ∈ p.type, NoPredicate (kinds t.pieces)) :
    NoPredicate (kinds (Ty.piecesSignature s)) := by
  obtain ⟨typeParams, thisType, params⟩ := s
  rw [Ty.piecesSignature, kinds_append, kinds_token, kinds_append, Ty.piecesTypeParams_eq,
    Ty.piecesThis_eq, Ty.piecesParams_eq]
  refine (angledBy fun ps hps => ?_).append (cons rfl ((separatedBy fun ps hps => ?_).append
    (cons rfl nil)))
  · obtain ⟨p, hp, rfl⟩ := List.mem_map.1 hps
    rw [TypeParam.pieces, kinds_token, kinds_append]
    exact cons (plainName (htypeParams p hp))
      ((after rfl (hconstraints p hp)).append (after rfl (hdefaults p hp)))
  · rcases List.mem_append.1 hps with hps | hps
    · obtain ⟨t, ht, rfl⟩ := List.mem_map.1 hps
      exact cons rfl (cons rfl (hthis t (Option.mem_toList.1 ht)))
    · obtain ⟨p, hp, rfl⟩ := List.mem_map.1 hps
      have hname : kinds [name p.name] = [wordKind p.name] := by
        rw [name, if_pos (isWord_of_isPlainName (hparams p hp))]
        rfl
      have hpieces : p.pieces = piecesIf p.rest [mark .ellipsis] ++ ([name p.name] ++
        (piecesIf p.optional [mark .question] ++ Ty.piecesAfter (.punct .colon) p.type)) := rfl
      rw [hpieces, kinds_append, kinds_append, kinds_append, hname]
      exact (optional rfl _).append ((cons (plainName (hparams p hp)) nil).append
        ((optional rfl _).append (after rfl (htypes p hp))))

end Token.NoPredicate

namespace Ty.Grammar

variable {level : Ty.Level} {t : Ty}

/-- A type of the grammar binds at least as tightly as its level asks for. -/
theorem rank_le (h : Grammar level t) : level.rank ≤ t.rank := by
  induction h with
  | suffixed _ ih | operator _ ih | single _ ih | alternative _ ih | type _ ih | returned _ ih =>
    exact Nat.le_trans (by decide) ih
  | function => exact Nat.le_add_left 1 4
  | _ => exact Nat.le_refl _

/-- Only what is at the level of types can end with an open part. -/
theorem opens_eq_false (h : Grammar level t) (hlevel : 2 ≤ level.rank) : t.opens = false := by
  have hlast {types : List Ty} (hlength : 2 ≤ types.length) (h : ∀ t ∈ types, t.opens = false) :
      lastOpens types = false := by
    have hne : types ≠ [] := by
      rintro rfl
      cases hlength
    rw [lastOpens_eq (List.getLast?_eq_some_getLast hne)]
    exact h _ (List.getLast_mem hne)
  induction h with
  | suffixed _ ih | operator _ ih | single _ ih | alternative _ ih => exact ih (by decide)
  | keyOf _ ih | readonly _ ih => exact ih (by decide)
  | intersection hlength _ ih | union hlength _ ih =>
    exact hlast hlength fun t ht => ih t ht (by decide)
  | type | conditional | function | returned | predicate | assertion =>
    exact absurd hlevel (by decide)
  | _ => rfl

/-- Its types do not begin like a predicate. -/
theorem noPredicate (h : Grammar level t) (hlevel : 1 ≤ level.rank) :
    NoPredicate (kinds t.pieces) := by
  induction h with
  | named hname _ ih =>
    rw [Ty.pieces, kinds_append]
    exact (NoPredicate.dotted hname).append (.angledBy (.types fun t ht => ih t ht (by decide)))
  | primitive p => cases p <;> exact .cons rfl .nil
  | string | this => exact .cons rfl .nil
  | boolean value => cases value <;> exact .cons rfl .nil
  | number hdigits =>
    rw [Ty.pieces]
    exact .number (.plain (isNumber_of_isDecimal hdigits))
  | negative hdigits =>
    rw [Ty.pieces]
    exact .number (.negative _ rfl (isNumber_of_isDecimal hdigits))
  | typeOf hname => exact .cons rfl (.dotted hname)
  | paren _ ih =>
    rw [Ty.pieces, kinds_token, kinds_append]
    exact .cons rfl ((ih (by decide)).append (.cons rfl .nil))
  | @tuple elements hnames _ ih =>
    rw [Ty.pieces, kinds_token, kinds_append, Ty.piecesElements_eq]
    refine .cons rfl (.append (.separatedBy fun ps hps => ?_) (.cons rfl .nil))
    obtain ⟨e, he, rfl⟩ := List.mem_map.1 hps
    exact .element (hnames e he) (ih e he (by decide))
  | suffixed _ ih | operator _ ih | single _ ih | alternative _ ih | type _ ih =>
    exact ih (by decide)
  | array _ ih =>
    rw [Ty.pieces, kinds_append]
    exact (ih (by decide)).append (.cons rfl (.cons rfl .nil))
  | index _ _ ihtarget ihkey =>
    rw [Ty.pieces, kinds_append, kinds_token, kinds_append]
    exact (ihtarget (by decide)).append
      (.cons rfl ((ihkey (by decide)).append (.cons rfl .nil)))
  | keyOf _ ih | readonly _ ih => exact .cons rfl (ih (by decide))
  | uniqueSymbol => exact .cons rfl (.cons rfl .nil)
  | infer hname => exact .cons rfl (.cons (NoPredicate.plainName hname) .nil)
  | intersection _ _ ih | union _ _ ih =>
    rw [Ty.pieces]
    exact .separatedBy (.types fun t ht => ih t ht (by decide))
  | conditional _ _ _ _ ihcheck ihbound ihtrue ihfalse =>
    simp only [Ty.pieces, kinds_append, kinds_token]
    exact (ihcheck (by decide)).append (.cons rfl ((ihbound (by decide)).append
      (.cons rfl ((ihtrue (by decide)).append (.cons rfl (ihfalse (by decide)))))))
  | @function s returns htypeParams _ _ _ hparams _ _ ihconstraints ihdefaults ihthis ihtypes _ =>
    rw [Ty.pieces, kinds_append]
    refine NoPredicate.append_of_length (.signature htypeParams
      (fun p hp t ht => ihconstraints p hp t ht (by decide))
      (fun p hp t ht => ihdefaults p hp t ht (by decide)) (fun t ht => ihthis t ht (by decide))
      hparams fun p hp t ht => ihtypes p hp t ht (by decide)) ?_
    obtain ⟨typeParams, thisType, params⟩ := s
    simp only [Ty.piecesSignature, kinds_append, kinds_token, List.length_append, List.length_cons]
    omega
  | returned | predicate | assertion => cases hlevel

/-- A type of the grammar in return position does not look like a predicate, unless it is one. -/
theorem fitsReturn (h : Grammar .returned t) : t.FitsReturn := by
  intro hrank
  have his : NoPredicate (kinds t.pieces) := by
    cases h with
    | returned h => exact h.noPredicate (by decide)
    | predicate | assertion => cases hrank
  intro heq
  refine his (.keyword .is) ?_ rfl
  rw [kindAt, List.getD_eq_getElem?_getD] at heq
  have hsecond : (kinds t.pieces)[1]? = some (.keyword .is) := by
    cases hget : (kinds t.pieces)[1]? with
    | none =>
      rw [hget] at heq
      cases heq
    | some kind =>
      rw [hget] at heq
      exact congrArg some heq
  refine List.mem_of_getElem? (i := 1) ?_
  rwa [List.getElem?_take_of_lt (by decide)]

/-- What is asked of its types. -/
theorem fits (h : Grammar level t) : t.Fits := by
  have hdotted {name : String} {first : String → Prop} (hname : IsPlainDotted name)
      (hfirst : ∀ w, wordKind w = .ident w → first w) : IsDottedName first name :=
    ⟨hname.isDotted, fun w hw =>
      hfirst w (wordKind_of_isPlainName (hname.words w (List.mem_of_mem_head? hw)))⟩
  have hparamWord {param : String} (hparam : param = "this" ∨ isPlainName param = true) :
      isWord param = true ∧ isPredicateParam (wordKind param) = true := by
    rcases hparam with rfl | hparam
    · exact ⟨isWord_keyword .this,
      by rw [show "this" = Keyword.text .this from rfl, wordKind_keyword]; rfl⟩
    · exact ⟨isWord_of_isPlainName hparam, by rw [wordKind_of_isPlainName hparam]; rfl⟩
  induction h with
  | named hname hargs =>
    refine .named (hdotted hname fun w hw => ?_) fun t ht => (hargs t ht).rank_le
    rw [isReferenceHead, hw]
  | primitive p => exact .primitive p
  | string value => exact .string value
  | number hdigits => exact .number (.plain (isNumber_of_isDecimal hdigits))
  | negative hdigits => exact .number (.negative _ rfl (isNumber_of_isDecimal hdigits))
  | boolean value => exact .boolean value
  | this => exact .this
  | typeOf hname =>
    refine .typeOf (hdotted hname fun w hw => ?_)
    rw [hw]
    rfl
  | paren h => exact .paren h.rank_le
  | tuple hnames htypes =>
    exact .tuple fun e he => ⟨fun name hname => isIdent_of_isPlainName (hnames e he name hname),
      (htypes e he).rank_le⟩
  | suffixed _ ih | operator _ ih | single _ ih | alternative _ ih | type _ ih | returned _ ih =>
    exact ih
  | array h => exact .array h.rank_le (h.opens_eq_false (by decide))
  | index htarget hkey =>
    exact .index htarget.rank_le (htarget.opens_eq_false (by decide)) hkey.rank_le
  | keyOf h => exact .keyOf h.rank_le
  | readonly h => exact .readonly h.rank_le
  | uniqueSymbol => exact .uniqueSymbol
  | infer hname => exact .infer (isIdent_of_isPlainName hname)
  | @intersection types hlength h =>
    exact .intersection hlength (fun t ht => (h t ht).rank_le)
      fun t ht => (h t (List.dropLast_subset types ht)).opens_eq_false (by decide)
  | @union types hlength h =>
    exact .union hlength (fun t ht => (h t ht).rank_le)
      fun t ht => (h t (List.dropLast_subset types ht)).opens_eq_false (by decide)
  | conditional hcheck hbound htrue hfalse =>
    exact .conditional hcheck.rank_le (hcheck.opens_eq_false (by decide)) hbound.rank_le
      htrue.rank_le hfalse.rank_le
  | function htypeParams hconstraints hdefaults hthis hparams htypes hreturns =>
    refine .function ⟨fun p hp => ⟨isIdent_of_isPlainName (htypeParams p hp), ?_, ?_⟩, ?_,
      fun p hp => ⟨?_, ?_⟩⟩
      hreturns.fitsReturn
    · exact fun t ht => (hconstraints p hp t ht).rank_le
    · exact fun t ht => (hdefaults p hp t ht).rank_le
    · exact fun t ht => (hthis t ht).rank_le
    · exact .ident (isIdent_of_isPlainName (hparams p hp))
    · exact fun t ht => (htypes p hp t ht).rank_le
  | predicate hparam hasserts h =>
    refine .predicate (hparamWord hparam).1 (hparamWord hparam).2 (fun _ => ⟨rfl, hasserts⟩) ?_
    rintro t ⟨⟩
    exact h.rank_le
  | assertion hparam h =>
    exact .predicate (hparamWord hparam).1 (hparamWord hparam).2 (by rintro ⟨⟩)
      fun t ht => (h t ht).rank_le

/-- The types in its types are again of the grammar. -/
theorem parts (h : Grammar level t) : ∀ u, .type u ∈ t.parts → ∃ level, Grammar level u := by
  induction h with
  | suffixed _ ih | operator _ ih | single _ ih | alternative _ ih | type _ ih | returned _ ih =>
    exact ih
  | named _ hargs => exact Part.forall_map.2 fun v hv => ⟨_, hargs v hv⟩
  | intersection _ h | union _ h => exact Part.forall_map.2 fun v hv => ⟨_, h v hv⟩
  | tuple _ htypes => exact Part.forall_map.2 fun e he => ⟨_, htypes e he⟩
  | paren h | array h | keyOf h | readonly h => exact Part.forall_singleton.2 ⟨_, h⟩
  | index htarget hkey => exact Ty.forall_parts_index.2 ⟨⟨_, htarget⟩, ⟨_, hkey⟩⟩
  | conditional hcheck hbound htrue hfalse =>
    exact Ty.forall_parts_conditional.2 ⟨⟨_, hcheck⟩, ⟨_, hbound⟩, ⟨_, htrue⟩, ⟨_, hfalse⟩⟩
  | function _ hconstraints hdefaults hthis _ htypes hreturns =>
    refine Ty.forall_parts_function.2
      ⟨Signature.forall_parts.2 ⟨fun p hp => ?_, fun v hv => ⟨_, hthis v hv⟩, fun p hp => ?_⟩,
        _, hreturns⟩
    · exact TypeParam.forall_parts.2
        ⟨fun v hv => ⟨_, hconstraints p hp v hv⟩, fun v hv => ⟨_, hdefaults p hp v hv⟩⟩
    · exact Param.forall_parts.2 fun v hv => ⟨_, htypes p hp v hv⟩
  | predicate _ _ h => exact Part.forall_singleton.2 ⟨_, h⟩
  | assertion _ h => exact Ty.forall_optionParts.2 fun v hv => ⟨_, h v hv⟩
  | _ => nofun

/-- Every type of the grammar is canonical. -/
theorem canonical (h : Grammar level t) : t.Canonical := by
  induction t using Ty.parts_induction generalizing level with
  | step t ih =>
    refine .of_parts h.fits fun u hu => ?_
    obtain ⟨level, hu'⟩ := h.parts u hu
    exact ih u hu hu'

end Ty.Grammar

/-- What the grammar of types generates is read back from its text. -/
theorem Ty.parse_text {t : Ty} (h : Ty.Grammar .type t) : Ty.parse t.text = .ok t :=
  parse_text_canonical h.canonical h.rank_le

/-- A function that returns a conditional type, with a rest parameter, a union and a tuple in it, is
read back from its text. -/
theorem Ty.parse_text_conditional :
    Ty.parse (Ty.text (.function ⟨[], none, [⟨"keys", some (.array (.named "T" [])), false, true⟩]⟩
      (.conditional (.named "T" []) (.union [.keyOf (.named "ts.Map" []), .number "-1"])
        (.tuple [⟨.named "T" [], some "first", true, false⟩]) (.paren .this)))) =
      .ok (.function ⟨[], none, [⟨"keys", some (.array (.named "T" [])), false, true⟩]⟩
        (.conditional (.named "T" []) (.union [.keyOf (.named "ts.Map" []), .number "-1"])
          (.tuple [⟨.named "T" [], some "first", true, false⟩]) (.paren .this))) := by
  have ht : Ty.Grammar .suffixed (.named "T" []) :=
    .suffixed (.named ⟨["T"], nofun, by decide, rfl⟩ nofun)
  have htype : Ty.Grammar .type (.named "T" []) :=
    .type (.alternative (.single (.operator ht)))
  have hkeys : Ty.Grammar .type (.array (.named "T" [])) :=
    .type (.alternative (.single (.operator (.array ht))))
  have hmap : Ty.Grammar .intersection (.keyOf (.named "ts.Map" [])) :=
    .single (.keyOf (.operator (.suffixed (.named ⟨["ts", "Map"], nofun, by decide, rfl⟩ nofun))))
  have hnumber : Ty.Grammar .intersection (.number "-1") :=
    .single (.operator (.suffixed (.negative (show isDecimal "1" = true by decide))))
  have hfirst : Ty.Grammar .type (.tuple [⟨.named "T" [], some "first", true, false⟩]) := by
    refine .type (.alternative (.single (.operator (.suffixed (.tuple ?_ ?_)))))
    · simpa using show isPlainName "first" = true by decide
    · simpa using htype
  have hthis : Ty.Grammar .type (.paren .this) :=
    .type (.alternative (.single (.operator (.suffixed (.paren
      (.type (.alternative (.single (.operator (.suffixed .this))))))))))
  refine Ty.parse_text (.function nofun nofun nofun nofun ?_ ?_ (.returned (.conditional
    (.alternative (.single (.operator ht))) (.union (Nat.le_refl 2) ?_) hfirst hthis)))
  · simpa using show isPlainName "keys" = true by decide
  · simpa using hkeys
  · simpa using ⟨hmap, hnumber⟩

end DeclLayer
