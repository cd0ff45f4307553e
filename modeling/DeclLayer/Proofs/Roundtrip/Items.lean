import DeclLayer.Proofs.Parse.Items
import DeclLayer.Proofs.Render.DocBlock
import DeclLayer.Proofs.Render.ItemText
import DeclLayer.Proofs.Roundtrip.Types

/-!
# Statements round-trip through text

Canonical statements are read back from the text of a file (`parseItems_renderItems_canonical`), in
every style. So printing what was read is stable, unless the statements are not canonical
(`renderItems_stable`); a file with a type that is not is `renderItems_stable_keyOf`.

Enums and namespaces with plain names and values are canonical, to any depth of nesting
(`Item.Plain.canonical`), so files of them are read back as they were (`parseItems_renderItems`).
-/

namespace DeclLayer

open Token DeclLayer.Parser Literal Comment

/-! ## Canonical statements -/

/-- Canonical statements are read back from the text of a file. -/
theorem parseItems_renderItems_canonical (style : Style) {items : List Item}
    (h : ∀ item ∈ items, item.Canonical) : parseItems (renderItems style items) = .ok items := by
  have hwrites := Item.writes_renderList 0
    (fun item hitem => Item.written style.isIndent_unit (h item hitem)) none
  have hspells := Cursor.spells_start hwrites.laid
  obtain ⟨c, hresult, -⟩ := Reads.file h _
    ((List.append_nil (Item.piecesList items)).symm ▸ hspells)
  show Except.map Prod.fst _ = _
  rw [show StateT.run Parser.file (Cursor.start (renderItems style items)) = _ from hresult]
  rfl

/-- Printing is stable on canonical statements: the text is accepted, and printed again it is the
same. -/
theorem renderItems_stable (style : Style) {items : List Item}
    (h : ∀ item ∈ items, item.Canonical) :
    ∃ again, parseItems (renderItems style items) = .ok again ∧
      renderItems style again = renderItems style items :=
  ⟨items, parseItems_renderItems_canonical style h, rfl⟩

/-- The text of `() => keyof T` is stable. But where `is` stands for `T`, the text begins like a
predicate, and it is refused, although a bar in front of the type made the file acceptable. -/
theorem renderItems_stable_keyOf :
    (∃ again, parseItems (renderItems .standard [.typeAlias ⟨[], .plain, "F", [],
        .function ⟨[], none, []⟩ (.keyOf (.named "T" []))⟩]) = .ok again ∧
      renderItems .standard again = renderItems .standard [.typeAlias ⟨[], .plain, "F", [],
        .function ⟨[], none, []⟩ (.keyOf (.named "T" []))⟩]) ∧
    ∃ items e, parseItems "type F = () => | keyof is;" = .ok items ∧
      parseItems (renderItems .standard items) = .error e := by
  constructor
  · have hname : Ty.Grammar .operator (.named "T" []) :=
      .operator (.suffixed (.named ⟨["T"], nofun, by decide, rfl⟩ nofun))
    have htype : Ty.Grammar .type (.function ⟨[], none, []⟩ (.keyOf (.named "T" []))) :=
      .function nofun nofun nofun nofun nofun nofun
        (.returned (.type (.alternative (.single (.keyOf hname)))))
    refine renderItems_stable .standard fun item hitem => ?_
    obtain rfl := List.mem_singleton.1 hitem
    exact .typeAlias nofun (by decide) nofun htype.canonical htype.rank_le
  · have hread : (parseItems "type F = () => | keyof is;").toBool = true := by decide +kernel
    have hagain : (do
        let items ← parseItems "type F = () => | keyof is;"
        parseItems (renderItems .standard items)).toBool = false := by
      decide +kernel
    cases hitems : parseItems "type F = () => | keyof is;" with
    | error e =>
      rw [hitems] at hread
      cases hread
    | ok items =>
      rw [hitems] at hagain
      cases herror : parseItems (renderItems .standard items) with
      | error e => exact ⟨items, e, rfl, herror⟩
      | ok again =>
        have hok : (parseItems (renderItems .standard items)).toBool = false := hagain
        rw [herror] at hok
        cases hok

/-! ## Plain enums and namespaces -/

/-- The text of a number or of a quoted text. -/
inductive Token.IsPlainValue (text : String) : Prop where
  | digits (h : isDecimal text = true)
  | negative (digits : String) (h : isDecimal digits = true) (heq : text = "-" ++ digits)
  | quoted (value : String) (h : text = Text.quote value)

/-- An enum member with a plain or quoted name and a plain value. -/
structure EnumMember.Plain (m : EnumMember) : Prop where
  docs : ∀ doc ∈ m.docs, IsDoc doc
  name : isPlainName m.name = true ∨ ∃ value, m.name = Text.quote value
  initializer : ∀ text ∈ m.initializer, IsPlainValue text

/-- Enums and namespaces with plain names, nested to any depth. -/
inductive Item.Plain : Item → Prop where
  | enum {d : EnumDecl} (docs : ∀ doc ∈ d.docs, IsDoc doc) (name : isPlainName d.name = true)
    (members : ∀ m ∈ d.members, m.Plain) : Plain (.enum d)
  | space {b : Block Item} (docs : ∀ doc ∈ b.docs, IsDoc doc) (name : IsPlainDotted b.name)
    (items : ∀ item ∈ b.items, Plain item) : Plain (.space b)

/-- A text that neither begins nor ends with white space has none to trim. -/
theorem Text.trim_eq_self {s : String} (hfirst : ∀ c ∈ s.toList.head?, Text.isBlank c = false)
    (hlast : ∀ c ∈ s.toList.getLast?, Text.isBlank c = false) : Text.trim s = s := by
  have hfront : Text.trimFront s.toList = s.toList := by
    rw [Text.trimFront]
    cases hs : s.toList with
    | nil => rfl
    | cons c cs =>
      rw [hs] at hfirst
      rw [List.dropWhile_cons_of_neg]
      exact Bool.eq_false_iff.1 (hfirst c rfl)
  rw [Text.trim, hfront, Text.trimBack, Text.dropBackWhile_eq_self hlast, String.ofList_toList]

/-- A plain value is read back as an initializer. -/
theorem Token.IsPlainValue.isInitializer {text : String} (h : IsPlainValue text) :
    IsInitializer text := by
  have hdigit {c : Char} (hc : c.isDigit = true) : Text.isBlank c = false := by
    obtain ⟨hlow, hhigh⟩ := isDigit_iff.1 hc
    simp only [Text.isBlank, Bool.or_eq_false_iff, Bool.and_eq_false_iff, decide_eq_false_iff_not,
      beq_eq_false_iff_ne]
    omega
  have htrim {text : String} (h : ∀ c ∈ text.toList, Text.isBlank c = false) :
      Text.trim text = text :=
    Text.trim_eq_self (fun c hc => h c (List.mem_of_mem_head? hc))
      fun c hc => h c (List.mem_of_getLast? hc)
  cases h with
  | digits h =>
    have hcuts := Cuts.number (isNumber_of_isDecimal h)
    refine ⟨⟨_, hcuts.mono fun _ => apart_of_tight⟩, .of_single hcuts.lexemes_eq,
      htrim fun c hc => hdigit ?_, ?_⟩
    · exact List.all_eq_true.1 (Bool.and_eq_true_iff.1 h).2 c hc
    · rw [textKinds, hcuts.lexemes_eq]
      rfl
  | negative digits h heq =>
    subst heq
    have hcuts := Cuts.negative (isNumber_of_isDecimal h)
    refine ⟨⟨_, hcuts.mono fun _ => apart_of_tight⟩, ⟨⟨_, _, _, hcuts.lexemes_eq⟩, _, _, [_],
      hcuts.lexemes_eq⟩, htrim fun c hc => ?_, ?_⟩
    · rw [String.toList_append] at hc
      rcases List.mem_cons.1 hc with rfl | hc
      · rfl
      · exact hdigit (List.all_eq_true.1 (Bool.and_eq_true_iff.1 h).2 c hc)
    · rw [textKinds, hcuts.lexemes_eq]
      rfl
  | quoted value heq =>
    subst heq
    have hcuts := Cuts.quote value
    have htext : (Text.quote value).toList = '"' :: (Text.quoteBody value.toList ++ ['"']) := by
      rw [Text.quote, String.toList_ofList, List.cons_append]
    refine ⟨⟨_, hcuts.mono fun _ _ => rfl⟩, .of_single hcuts.lexemes_eq,
      Text.trim_eq_self (fun c hc => ?_) fun c hc => ?_, ?_⟩
    · rw [htext] at hc
      cases hc
      rfl
    · rw [htext, ← List.cons_append, List.getLast?_concat] at hc
      cases hc
      rfl
    · rw [textKinds, hcuts.lexemes_eq]
      rfl

/-- A plain enum member fits. -/
theorem EnumMember.Plain.fits {m : EnumMember} (h : m.Plain) : m.Fits := by
  refine ⟨h.docs, ?_, fun text htext => (h.initializer text htext).isInitializer⟩
  rcases h.name with hname | ⟨value, hname⟩
  · exact .word (isWord_of_isPlainName hname)
  · exact .quoted value hname

/-- A plain statement is canonical. -/
theorem Item.Plain.canonical {item : Item} (h : item.Plain) : item.Canonical := by
  induction h with
  | enum docs name members =>
    exact .enum docs (isIdent_of_isPlainName name) fun m hm => (members m hm).fits
  | space docs name _ ih =>
    exact .space docs (fun w hw => isIdent_of_isPlainName (name.words w hw)) ih

/-- Enums and namespaces with plain names and values are read back from the text of a file. -/
theorem parseItems_renderItems (style : Style) {items : List Item}
    (h : ∀ item ∈ items, item.Plain) : parseItems (renderItems style items) = .ok items :=
  parseItems_renderItems_canonical style fun item hitem => (h item hitem).canonical

/-- A documented namespace with an enum and an empty namespace in it is read back from its text. -/
theorem parseItems_renderItems_nested :
    parseItems (renderItems ⟨2, false⟩ [.space ⟨["Nested."], .ambient false, "ts.server",
        [.enum ⟨[], .exportedOnly, true, "Kind", [⟨["First.\n\nLast."], "A", some "-1"⟩,
          ⟨[], Text.quote "*/ \n", some (Text.quote "b")⟩]⟩,
        .space ⟨[], .plain, "global", []⟩]⟩]) =
      .ok [.space ⟨["Nested."], .ambient false, "ts.server",
        [.enum ⟨[], .exportedOnly, true, "Kind", [⟨["First.\n\nLast."], "A", some "-1"⟩,
          ⟨[], Text.quote "*/ \n", some (Text.quote "b")⟩]⟩,
        .space ⟨[], .plain, "global", []⟩]⟩] := by
  have hnested : IsDoc "Nested." := ⟨"* Nested. ".toList, by decide +kernel, rfl⟩
  have hfirst : IsDoc "First.\n\nLast." :=
    ⟨"*\n * First.\n *\n * Last.\n ".toList, by decide +kernel, rfl⟩
  have hplain : EnumMember.Plain ⟨["First.\n\nLast."], "A", some "-1"⟩ :=
    ⟨by simpa using hfirst, .inl (by decide), by
      rintro text ⟨⟩
      exact .negative "1" (by decide) rfl⟩
  have hquoted : EnumMember.Plain ⟨[], Text.quote "*/ \n", some (Text.quote "b")⟩ :=
    ⟨nofun, .inr ⟨_, rfl⟩, by
      rintro text ⟨⟩
      exact .quoted "b" rfl⟩
  have henum : Item.Plain (.enum ⟨[], .exportedOnly, true, "Kind",
      [⟨["First.\n\nLast."], "A", some "-1"⟩, ⟨[], Text.quote "*/ \n", some (Text.quote "b")⟩]⟩) :=
    .enum nofun (by decide) (by simpa using ⟨hplain, hquoted⟩)
  have hglobal : Item.Plain (.space ⟨[], .plain, "global", []⟩) :=
    .space nofun ⟨["global"], nofun, by decide, rfl⟩ nofun
  refine parseItems_renderItems ⟨2, false⟩ fun item hitem => ?_
  obtain rfl := List.mem_singleton.1 hitem
  exact .space (by simpa using hnested) ⟨["ts", "server"], nofun, by decide, rfl⟩
    (by simpa using ⟨henum, hglobal⟩)

end DeclLayer
