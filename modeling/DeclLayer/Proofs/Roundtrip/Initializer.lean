import DeclLayer.Proofs.Roundtrip.Items
import DeclLayer.Proofs.Token.Flat

/-!
# Initializers are kept from the first token to the last

A parser cuts an initializer out of the source between the first byte of its first token and the
last byte of its last one. Characters that belong to no token, such as a tilde, are kept between
tokens and lost at both ends. For a text without quotes, slashes, brackets, commas and semicolons
this is all that is lost: the parser accepts it as the initializer of an enum member and keeps
`Token.kept` of it (`parseItems_initializer`). That is the whole text if and only if a token begins
with its first character and its last one is part of a token, and a tilde in front shows that it
need not be (`parseItems_initializer_tilde`).

A text without any token is no piece of the source at all, so the initializer is empty
(`Parser.Reads.initializer_empty`).
-/

namespace DeclLayer

open Text

namespace Token

variable {cs : List Char}

/-- What is kept begins and ends with a token. -/
theorem solid_kept (hcs : Flat cs) (hne : kept cs ≠ []) : Solid (String.ofList (kept cs)) := by
  rw [Solid, String.toList_ofList]
  constructor
  · rcases kept_eq_nil_or cs with hnil | ⟨c, rest, hcons, hbegins⟩
    · exact absurd hnil hne
    · have hflat := hcs.kept
      rw [hcons] at hflat
      have hreading := reading_lexeme (hflat c List.mem_cons_self) rest
      rw [hcons, lexemes]
      generalize lexeme c rest = reading at hreading ⊢
      cases hreading with
      | token => exact ⟨_, _, _, rfl⟩
      | skipped hskipped => exact absurd (hskipped.symm.trans hbegins) Bool.false_ne_true
  · have htext := flatMap_raw_lexemes (kept cs)
    have hflat := lexemes_isFlat hcs.kept
    rcases List.eq_nil_or_concat (lexemes (kept cs)) with hnil | ⟨ls, l, hlast⟩
    · rw [hnil] at htext
      exact absurd htext.symm hne
    · rw [List.concat_eq_append] at hlast
      rw [hlast, List.flatMap_append, List.flatMap_singleton] at htext
      cases hflat l (by rw [hlast]; exact List.mem_append_right _ List.mem_cons_self) with
      | token => exact ⟨_, _, ls, hlast⟩
      | stray hstray =>
        have hend := getLast?_dropBackWhile (p := isStray) (dropStray cs)
        rw [← kept, ← htext, List.getLast?_append] at hend
        exact absurd ((hend _ rfl).symm.trans hstray) Bool.false_ne_true

/-- The tokens of a flat text are inner ones. -/
theorem isInner_of_mem_textKinds (hcs : Flat cs) :
    ∀ kind ∈ textKinds (String.ofList cs), kind.isInner = true := by
  intro kind hkind
  rw [textKinds, String.toList_ofList] at hkind
  obtain ⟨l, hl, hlkind⟩ := List.mem_filterMap.1 hkind
  cases lexemes_isFlat hcs l hl with
  | token hinner =>
    cases hlkind
    exact hinner
  | stray => cases hlkind

end Token

namespace Parser

open Token

/-- Tokens that are no bracket, comma or semicolon stay at the nesting depth, and end nothing. -/
theorem initializerDepth_of_isInner {kinds : List Kind} (depth : Nat)
    (h : ∀ kind ∈ kinds, kind.isInner = true) : initializerDepth depth kinds = some depth := by
  induction kinds with
  | nil => rfl
  | cons kind kinds ih =>
    obtain ⟨hkind, hkinds⟩ := List.forall_mem_cons.1 h
    have hends : endsInitializer kind = false := by
      rw [Bool.eq_false_iff]
      intro hends
      simp only [endsInitializer, Bool.or_eq_true, beq_iff_eq] at hends
      rcases hends with (rfl | rfl) | rfl <;> cases hkind
    have hdepth : bracketDepth depth kind = depth := by
      unfold bracketDepth
      split <;> first | rfl | cases hkind
    rw [initializerDepth, hends, Bool.and_false, if_neg Bool.false_ne_true, hdepth, ih hkinds]

/-- What is kept of a flat text is read back as an initializer. -/
theorem isInitializer_kept {cs : List Char} (hcs : Flat cs) (hne : kept cs ≠ []) :
    IsInitializer (String.ofList (kept cs)) := by
  have htext : (String.ofList (kept cs)).toList = kept cs := String.toList_ofList
  refine ⟨⟨lexemes (kept cs), fun r hr => ?_⟩, solid_kept hcs hne, ?_,
    initializerDepth_of_isInner 0 (isInner_of_mem_textKinds hcs.kept)⟩
  · rw [htext]
    exact lexemes_append hcs.kept (hr.mono fun _ => detached_of_tight)
  · refine trim_eq_self (fun c hc => ?_) fun c hc => ?_
    · rcases kept_eq_nil_or cs with hnil | ⟨d, rest, hcons, hbegins⟩
      · exact absurd hnil hne
      · rw [htext, hcons] at hc
        cases hc
        exact not_isBlank_of_begins hbegins
    · rw [htext] at hc
      refine Bool.eq_false_iff.2 fun hblank => ?_
      have hkept := getLast?_dropBackWhile (dropStray cs) c hc
      exact Bool.false_ne_true (hkept.symm.trans (isStray_of_isBlank hblank))

namespace Reads

variable {docs : Docs} {ps k : List Piece} {text : String}

/-- Without a token in front of what ends an initializer, the initializer is empty. -/
theorem initializer_empty (hk : endsInitializer (kindAt k 0) = true) :
    Reads docs Parser.initializer [] "" k := by
  intro c hc
  refine ⟨c, ?_, hc⟩
  have hpass : passInitializer 0 c.current.start c.rest = (c.current.start, c.rest) := by
    have hkinds := hc.map_kind.1
    rw [List.nil_append] at hkinds
    rw [kindAt, ← hkinds] at hk
    cases hrest : c.rest with
    | nil => rfl
    | cons t ts =>
      have ht : endsInitializer t.kind = true := by
        rw [hrest] at hk
        exact hk
      rw [passInitializer, ht]
      rfl
  have hslice : slice c.source c.current.start c.current.start = [] := by
    rw [slice, Nat.sub_self]
    cases dropBytes c.current.start c.source <;> rfl
  show Except.ok (Text.trim (String.ofList (slice c.source c.current.start
      (passInitializer 0 c.current.start c.rest).1)),
      { c with rest := (passInitializer 0 c.current.start c.rest).2 }) = _
  rw [hpass, hslice]
  rfl

/-- An enum with one member, which has the given initializer. -/
def singleEnum (enum member text : String) : EnumDecl :=
  ⟨[], .plain, false, enum, [⟨[], member, some text⟩]⟩

/-- The pieces of such an enum, where the initializer is some pieces. -/
def enumPieces (enum member : String) (ps : List Piece) : List Piece :=
  word .enum :: .token (wordKind enum) :: mark .lbrace ::
    (separatedBy .comma [name member :: mark .eq :: ps] ++ [mark .rbrace])

/-- The initializer is read in front of what ends it. -/
theorem enumDecl_single {enum member : String} (henum : isIdent enum = true)
    (hmember : IsPropertyName member)
    (h : ∀ k, endsInitializer (kindAt k 0) = true → Reads [] Parser.initializer ps text k) :
    Reads docs (Parser.enumDecl [] .plain false) (enumPieces enum member ps)
      (singleEnum enum member text) k := by
  have hread (m : EnumMember) (hm : m ∈ [(⟨[], member, some text⟩ : EnumMember)]) (k : List Piece)
      (hk : kindAt k 0 = .punct .comma ∨ kindAt k 0 = .punct .rbrace) :
      Reads [] Parser.enumMember (name member :: mark .eq :: ps) m k := by
    obtain rfl := List.mem_singleton.1 hm
    have hends : endsInitializer (kindAt k 0) = true := by
      rcases hk with hk | hk <;> rw [hk] <;> rfl
    exact bind_nil (docs_name hmember) (bind (propertyName hmember) (after (h k hends)).map)
  have hstart (m : EnumMember) (_ : m ∈ [(⟨[], member, some text⟩ : EnumMember)])
      (k : List Piece) : kindAt ((name member :: mark .eq :: ps) ++ k) 0 ≠ .punct .rbrace ∧
        kindAt ((name member :: mark .eq :: ps) ++ k) 0 ≠ .eof := by
    have hstarts := hmember.starts (k := mark .eq :: ps ++ k)
    constructor
    · exact fun heq => by cases hstarts.symm.trans (congrArg Kind.startsPropertyName heq)
    · exact fun heq => by cases hstarts.symm.trans (congrArg Kind.startsPropertyName heq)
  have hlist (k : List Piece) : Reads [] (Parser.list .rbrace Parser.enumMember)
      (separatedBy .comma [name member :: mark .eq :: ps]) [⟨[], member, some text⟩]
      (.token (.punct .rbrace) :: k) := list .rbrace nofun hread hstart
  refine bind_token expect (bind_token (identifier (Bool.and_eq_true_iff.1 henum).2) ?_)
  exact bind_token expect (bind (hlist _) (bind_token expect (pure _)))

/-- A file with one such enum. -/
theorem file_single {enum member : String} (henum : isIdent enum = true)
    (hmember : IsPropertyName member)
    (h : ∀ k, endsInitializer (kindAt k 0) = true → Reads [] Parser.initializer ps text k) :
    Reads [] Parser.file (enumPieces enum member ps)
      [.enum (singleEnum enum member text)] [] := by
  have hfile : Reads [] Parser.file
      ([.enum (singleEnum enum member text)].flatMap fun _ : Item => enumPieces enum member ps)
      [.enum (singleEnum enum member text)] [] := by
    refine many (C := fun _ => True) (check .eof) trivial (fun item _ => List.cons_ne_nil _ _)
      fun item hitem k _ => ⟨check_other nofun, ?_, ?_, trivial⟩
    · obtain rfl := List.mem_singleton.1 hitem
      refine bind_nil peek (bind_nil turns ?_)
      have hdeclaration (items : Parser (List Item)) (docs : Docs) :
          Reads docs (Parser.declaration items [] .plain) (enumPieces enum member ps)
            [.enum (singleEnum enum member text)] k :=
        bind_nil peek (enumDecl_single henum hmember h).map
      exact itemsWith ⟨_, _, rfl, rfl⟩ (hdeclaration _)
    · simp only [enumPieces, word, mark, docsAfter_token, docsAfter_append, docsAfter_nil]
  rwa [List.flatMap_singleton] at hfile

end Reads

end Parser

open Token DeclLayer.Parser

/-- The text of an enum `E` with a member `A`, which has the given initializer. -/
def enumSource (text : String) : String :=
  "enum E \x7b A = " ++ text ++ " \x7d"

/-- What is kept of a flat text is one piece. If there is no token in it, it is none. -/
def Token.flatPieces (cs : List Char) : List Piece :=
  if kept cs = [] then [] else [.verbatim (String.ofList (kept cs))]

/-- A flat text adds its tokens as pieces, with gaps around them. -/
theorem Token.Writes.flat {text : String} (hflat : Flat text.toList) :
    Writes detached text (flatPieces text.toList) := by
  intro r qs hr hqs
  obtain ⟨front, back, hfront, hback, hlexemes⟩ := exists_lexemes_kept hflat
  rw [lexemes_append hflat hr, hlexemes, List.append_assoc, List.append_assoc]
  have hrest : Laid (back ++ lexemes r) qs := .gap_append hback hqs
  refine .gap_append hfront ?_
  rw [flatPieces]
  split
  · next hnil =>
    rw [hnil, lexemes_nil]
    exact hrest
  · have hpiece := Laid.piece (.verbatim (String.ofList (kept text.toList))) hrest
    rwa [String.toList_ofList] at hpiece

/-- The enum with the text as its initializer adds the pieces of the enum. -/
theorem writes_enumSource {text : String} {ps : List Piece} (h : Writes detached text ps) :
    Writes free (enumSource text) (Reads.enumPieces "E" "A" ps) := by
  have henum : Writes apart ("enum " ++ "E") [word .enum, .token (wordKind "E")] :=
    (Writes.keywordSpace .enum).append_free (.ident (by decide))
  have hopen : Writes free (" \x7b" ++ " ") [mark .lbrace] :=
    Writes.openBrace.append_free .space
  have hmember : Writes free ("A" ++ " = ") [name "A", mark .eq] :=
    (IsPropertyName.word (by decide)).writes.then_ .spacedEquals (c := ' ') rfl (by decide)
  have hclose : Writes free (" " ++ "\x7d") [mark .rbrace] :=
    Writes.space.append_free (.punct "\x7d" (c := '\x7d') rfl rfl)
  have hall := (((henum.then_ hopen (c := ' ') rfl (by decide)).append_free hmember).append_free
    h).then_ hclose (c := ' ') rfl (by decide)
  refine hall.cast ?_
  simp only [Reads.enumPieces, separatedBy, List.flatMap_nil, List.append_nil, List.cons_append,
    List.nil_append]

/-- An initializer that is written as a flat text is read as the text from its first token to its
last. -/
theorem Parser.Reads.flat {docs : Docs} {k : List Piece} {cs : List Char} (hcs : Flat cs)
    (hk : endsInitializer (kindAt k 0) = true) :
    Reads docs Parser.initializer (flatPieces cs) (String.ofList (kept cs)) k := by
  rw [flatPieces]
  split
  · next hnil =>
    rw [hnil]
    exact initializer_empty hk
  · next hne => exact initializer (isInitializer_kept hcs hne) hk

/-- The enum is read with what is kept of the text. -/
theorem parseItems_enumSource {text : String} (hflat : Flat text.toList) :
    parseItems (enumSource text) = .ok [.enum ⟨[], .plain, false, "E",
      [⟨[], "A", some (String.ofList (kept text.toList))⟩]⟩] := by
  have hspells := Cursor.spells_start (writes_enumSource (.flat hflat)).laid
  rw [← List.append_nil (Reads.enumPieces _ _ _)] at hspells
  have henum : isIdent "E" = true := by decide
  have hmember : IsPropertyName "A" := .word (by decide)
  obtain ⟨c, hresult, -⟩ :=
    Reads.file_single henum hmember (fun _ hk => Reads.flat hflat hk) _ hspells
  show Except.map Prod.fst _ = _
  rw [show StateT.run Parser.file (Cursor.start (enumSource text)) = _ from hresult]
  rfl

/-- The initializer of an enum member is its text from the first token to the last. It is the whole
text if and only if a token begins with its first character, and the last one is part of a token. -/
theorem parseItems_initializer (text : String) (hflat : Flat text.toList) :
    parseItems (enumSource text) = .ok [.enum ⟨[], .plain, false, "E",
      [⟨[], "A", some (String.ofList (kept text.toList))⟩]⟩] ∧
    (parseItems (enumSource text) = .ok [.enum ⟨[], .plain, false, "E",
        [⟨[], "A", some text⟩]⟩] ↔
      text.toList = [] ∨ ((∃ c rest, text.toList = c :: rest ∧ begins c rest = true) ∧
        ∀ c ∈ text.toList.getLast?, isStray c = false)) := by
  refine ⟨parseItems_enumSource hflat, ?_⟩
  have htext : String.ofList (kept text.toList) = text ↔ kept text.toList = text.toList := by
    rw [← String.toList_inj, String.toList_ofList]
  rw [parseItems_enumSource hflat]
  simp only [Except.ok.injEq, List.cons.injEq, Item.enum.injEq, EnumDecl.mk.injEq,
    EnumMember.mk.injEq, Option.some.injEq, and_true, true_and, htext]
  by_cases hnil : text.toList = []
  · rw [hnil]
    exact iff_of_true rfl (.inl rfl)
  · rw [kept_eq_self_iff hnil, or_iff_right hnil]

/-- A sign that begins no token is lost in front of an initializer, and kept inside one. -/
theorem parseItems_initializer_tilde :
    (Flat "~1".toList ∧ Flat "-1 & ~2".toList) ∧
    parseItems "enum E \x7b A = ~1 \x7d" =
      .ok [.enum ⟨[], .plain, false, "E", [⟨[], "A", some "1"⟩]⟩] ∧
    parseItems "enum E \x7b A = ~1 \x7d" ≠
      .ok [.enum ⟨[], .plain, false, "E", [⟨[], "A", some "~1"⟩]⟩] ∧
    parseItems "enum E \x7b A = -1 & ~2 \x7d" =
      .ok [.enum ⟨[], .plain, false, "E", [⟨[], "A", some "-1 & ~2"⟩]⟩] := by
  refine ⟨by decide, (parseItems_initializer "~1" (by decide)).1, ?_,
    (parseItems_initializer "-1 & ~2" (by decide)).2.2 (.inr ⟨⟨'-', _, rfl, by decide⟩, ?_⟩)⟩
  · intro h
    have hlost := (parseItems_initializer "~1" (by decide)).2.1 h
    rcases hlost with hnil | ⟨⟨c, rest, hcons, hbegins⟩, -⟩
    · cases hnil
    · cases hcons
      exact absurd hbegins (by decide)
  · rintro c ⟨⟩
    decide

end DeclLayer
