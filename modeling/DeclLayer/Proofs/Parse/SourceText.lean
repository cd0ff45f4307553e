import DeclLayer.Proofs.Parse.Names

/-!
# Source text that is kept as written

A parser keeps initializers, computed names and patterns as they stand in the source. It finds their
end by counting brackets (`Parser.closesAt`, `Parser.initializerDepth`), and cuts out what lies
between the first byte of the first token and the last byte of the last one. A text that begins and
ends with a token, and whose brackets end it where it ends, is read back as it is
(`Reads.balanced`, `Reads.initializer`).
-/

namespace DeclLayer.Parser

open Token

variable {docs : Docs} {k : List Piece} {text : String}

/-- Whether some tokens close every bracket with the last of them and not before. -/
def closesAt (depth : Nat) : List Kind → Bool
  | [] => false
  | kind :: kinds =>
    if bracketDepth depth kind = 0 then kinds.isEmpty else closesAt (bracketDepth depth kind) kinds

/-- The nesting depth after some tokens of an initializer, if none of them ends it. -/
def initializerDepth (depth : Nat) : List Kind → Option Nat
  | [] => some depth
  | kind :: kinds =>
    if depth = 0 && endsInitializer kind then none
    else initializerDepth (bracketDepth depth kind) kinds

/-- Passing brackets stops behind the token that closes them, whatever follows. -/
theorem passBalanced_append {ts : List Token} (rest : List Token) {depth : Nat} (stop : Nat)
    (h : closesAt depth (ts.map Token.kind) = true) :
    passBalanced depth stop (ts ++ rest) = ((ts.getLast?.map Token.stop).getD stop, rest) := by
  induction ts generalizing depth stop with
  | nil => cases h
  | cons t ts ih =>
    rw [List.map_cons, closesAt] at h
    rw [List.cons_append, passBalanced]
    split at h
    · next hdepth =>
      obtain rfl : ts = [] := by simpa using h
      rw [if_pos hdepth]
      rfl
    · next hdepth =>
      rw [if_neg hdepth, ih t.stop h, List.getLast?_cons]
      cases ts.getLast? <;> rfl

/-- Passing an initializer stops in front of what ends it. -/
theorem passInitializer_append {ts rest : List Token} {depth : Nat} (stop : Nat)
    (h : initializerDepth depth (ts.map Token.kind) = some 0)
    (hrest : ∀ t ∈ rest.head?, endsInitializer t.kind = true) :
    passInitializer depth stop (ts ++ rest) = ((ts.getLast?.map Token.stop).getD stop, rest) := by
  induction ts generalizing depth stop with
  | nil =>
    cases h
    cases rest with
    | nil => rfl
    | cons t rest =>
      have ht := hrest t rfl
      rw [List.nil_append, passInitializer, ht]
      rfl
  | cons t ts ih =>
    rw [List.map_cons, initializerDepth] at h
    rw [List.cons_append, passInitializer]
    split at h
    · cases h
    · next hgo =>
      rw [if_neg hgo, ih t.stop h, List.getLast?_cons]
      cases ts.getLast? <;> rfl

/-- Passing exactly the tokens of a text gives the text. -/
theorem Reads.sourceText {pass : Nat → List Token → Nat × List Token} (hsolid : Solid text)
    (hpass : ∀ (start : Nat) (ts rest : List Token), ts.map Token.kind = textKinds text →
      rest.map Token.kind = kinds k →
      pass start (ts ++ rest) = ((ts.getLast?.map Token.stop).getD start, rest)) :
    Reads docs (Parser.sourceText pass) [.verbatim text] text k := by
  intro c hc
  obtain ⟨t, ts, rest, hrest, hkinds, -, hslice, hspells⟩ := hc.verbatim hsolid
  refine ⟨{ c with rest := rest }, ?_, hspells⟩
  have hcurrent : c.current = t := by
    rw [Cursor.current, hrest]
    rfl
  have hresult := hpass t.start (t :: ts) rest hkinds hspells.map_kind.1
  have hstop : ((t :: ts).getLast?.map Token.stop).getD t.start =
      ((t :: ts).getLast (List.cons_ne_nil t ts)).stop := by
    rw [List.getLast?_eq_some_getLast (List.cons_ne_nil t ts)]
    rfl
  show Except.ok (String.ofList (Text.slice c.source c.current.start
      (pass c.current.start c.rest).1), { c with rest := (pass c.current.start c.rest).2 }) = _
  rw [hcurrent, hrest, hresult, hstop, hslice, String.ofList_toList]

/-- A bracketed text is read back as it is written. -/
theorem Reads.balanced (hsolid : Solid text) (hcloses : closesAt 0 (textKinds text) = true) :
    Reads docs Parser.balanced [.verbatim text] text k := by
  refine sourceText hsolid fun start ts rest hkinds _ => ?_
  exact passBalanced_append rest start (hkinds ▸ hcloses)

/-- A text that is read back as an initializer. -/
structure IsInitializer (text : String) : Prop where
  /-- What follows the text does not change its tokens. -/
  cuts : ∃ ls, Cuts tight text ls
  solid : Solid text
  trimmed : Text.trim text = text
  inside : initializerDepth 0 (textKinds text) = some 0

/-- An initializer goes on up to what ends it. -/
theorem Reads.initializer (h : IsInitializer text) (hk : endsInitializer (kindAt k 0) = true) :
    Reads docs Parser.initializer [.verbatim text] text k := by
  have htext : Reads docs (Parser.sourceText (passInitializer 0)) [.verbatim text] text k := by
    refine sourceText h.solid fun start ts rest hkinds hrest => ?_
    refine passInitializer_append start (hkinds ▸ h.inside) fun t ht => ?_
    cases rest with
    | nil => cases ht
    | cons u rest =>
      cases ht
      rw [kindAt, ← hrest] at hk
      exact hk
  have hmap := htext.map (g := Text.trim)
  rwa [h.trimmed] at hmap

/-! ## Names that are no words -/

/-- A text of one token can be read as that token. -/
theorem Reads.verbatim {α : Type} {p : Parser α} {ps : List Piece} {a : α} {raw : List Char}
    {kind : Kind} (htext : lexemes text.toList = [⟨raw, .token kind⟩])
    (h : Reads docs p (.token kind :: ps) a k) : Reads docs p (.verbatim text :: ps) a k := by
  rintro c ⟨before, ls, hsource, htokens, hlaid⟩
  refine h c ⟨before, ls, hsource, htokens, ?_⟩
  obtain ⟨gap, own, ls', rfl, hgap, hown, hls'⟩ := hlaid.cons_inv
  obtain ⟨⟩ := hown
  rw [htext]
  exact .gap_append hgap (.token hls')

/-- The texts that can name a property: a word, a quoted text, a number, or a bracketed text that
begins and ends with a token and closes its brackets where it ends. -/
inductive IsPropertyName (text : String) : Prop where
  | word (h : Literal.isWord text = true)
  | quoted (value : String) (h : text = Text.quote value)
  | number (h : Literal.isNumber text = true)
  | computed (ls : List Lexeme) (cuts : Cuts tight text ls) (solid : Solid text)
      (closes : closesAt 0 (textKinds text) = true)
      (first : (textKinds text).head? = some (.punct .lbracket))

/-- A word begins with a letter, an underscore, a dollar or a number sign. -/
theorem isWord_head {text : String} (h : Literal.isWord text = true) {c : Char} {cs : List Char}
    (htext : text.toList = c :: cs) : Literal.isIdentStart c = true ∨ c = '#' := by
  rw [Literal.isWord, htext] at h
  simp only [Bool.and_eq_true, Bool.or_eq_true, beq_iff_eq] at h
  exact h.1.imp_right And.left

/-- A quoted text is no word. -/
theorem isWord_quote (value : String) : Literal.isWord (Text.quote value) = false := by
  rw [Bool.eq_false_iff]
  intro h
  have htext : (Text.quote value).toList = '"' :: (Text.quoteBody value.toList ++ ['"']) := by
    rw [Text.quote, String.toList_ofList, List.cons_append]
  rcases isWord_head h htext with h | h
  · exact absurd h (by decide)
  · exact absurd h (by decide)

/-- A number is no word. -/
theorem isWord_of_isNumber {text : String} (h : Literal.isNumber text = true) :
    Literal.isWord text = false := by
  rw [Bool.eq_false_iff]
  intro hword
  rw [Literal.isNumber] at h
  split at h
  · cases h
  · next c cs htext =>
    rw [Bool.and_eq_true, isDigit_iff] at h
    rcases isWord_head hword htext with hc | rfl
    · rw [isIdentStart_iff] at hc
      omega
    · exact absurd h.1 (by decide)

/-- A text that begins with a mark is no word. -/
theorem isWord_of_punct {text : String} {p : Punct}
    (first : (textKinds text).head? = some (.punct p)) : Literal.isWord text = false := by
  rw [Bool.eq_false_iff]
  intro hword
  have hkinds := (Cuts.word hword).lexemes_eq
  rw [textKinds, hkinds] at first
  have hkind : wordKind text = .punct p := Option.some.inj first
  rcases wordKind_cases text with hw | ⟨kw, hw, -⟩
  · rw [hw] at hkind
    cases hkind
  · rw [hw] at hkind
    cases hkind

/-- What follows a name of a property leaves the name alone. -/
theorem IsPropertyName.writes (h : IsPropertyName text) : Writes tight text [name text] := by
  cases h with
  | word h =>
    rw [name, if_pos h]
    exact (Writes.word h).mono fun c hc => notWord_of_apart (apart_of_tight hc)
  | quoted value h =>
    subst h
    rw [name, isWord_quote, if_neg Bool.false_ne_true]
    exact (Cuts.quote value).writes_verbatim.of_free
  | number h =>
    rw [name, isWord_of_isNumber h, if_neg Bool.false_ne_true]
    exact (Cuts.number h).writes_verbatim.mono fun c => apart_of_tight
  | computed ls cuts solid closes first =>
    rw [name, isWord_of_punct first, if_neg Bool.false_ne_true]
    exact cuts.writes_verbatim

/-- A property name is read back in its spelling. -/
theorem Reads.propertyName (h : IsPropertyName text) :
    Reads docs Parser.propertyName [name text] text k := by
  cases h with
  | word h =>
    rw [name, if_pos h]
    refine bind_nil peek ?_
    rw [List.singleton_append, kindAt_token_zero]
    rcases wordKind_cases text with hw | ⟨kw, hw, htext⟩
    · rw [hw]
      exact skip.bind (pure text)
    · rw [hw, ← htext]
      exact skip.bind (pure kw.text)
  | quoted value h =>
    subst h
    rw [name, isWord_quote, if_neg Bool.false_ne_true]
    refine verbatim (Cuts.quote value).lexemes_eq ?_
    exact bind_nil peek (skip.bind (pure (Text.quote value)))
  | number h =>
    rw [name, isWord_of_isNumber h, if_neg Bool.false_ne_true]
    refine verbatim (Cuts.number h).lexemes_eq ?_
    exact bind_nil peek (skip.bind (pure text))
  | computed ls cuts solid closes first =>
    rw [name, isWord_of_punct first, if_neg Bool.false_ne_true]
    refine bind_nil peek ?_
    rw [List.singleton_append, kindAt_verbatim first]
    exact balanced solid closes

end DeclLayer.Parser
