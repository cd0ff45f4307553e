import DeclLayer.Parse.Cursor
import DeclLayer.Proofs.Token.Laid
import DeclLayer.Proofs.Token.Places

/-!
# Cursors and the pieces ahead of them

`Cursor.Spells` says what stands ahead of a cursor: the pieces of the rest of the source, and the
documentation comments that already wait for the next token. Passing a token, a comment or a stretch
of text that is kept as written leads to a cursor that spells the rest (`Cursor.Spells.token`,
`Cursor.Spells.doc`, `Cursor.Spells.verbatim`). All that a parser can ask of a cursor is read off
the pieces.
-/

namespace DeclLayer

namespace Token

open Text

/-! ## The kinds of pieces -/

/-- The kinds of the tokens of a text. -/
def textKinds (text : String) : List Kind :=
  (lexemes text.toList).filterMap Lexeme.kind?

/-- The kinds of the tokens in a piece. -/
def Piece.kinds : Piece → List Kind
  | .token kind => [kind]
  | .doc _ => []
  | .verbatim text => textKinds text

/-- The kinds of the tokens in some pieces. -/
def kinds (ps : List Piece) : List Kind :=
  ps.flatMap Piece.kinds

/-- The kind of the token with a number among some pieces. The end comes after all of them. -/
def kindAt (ps : List Piece) (n : Nat) : Kind :=
  (kinds ps).getD n .eof

/-- The documentation comments that wait after some pieces. -/
def docsAfter (docs : Docs) : List Piece → Docs
  | [] => docs
  | .doc text :: ps => docsAfter (docs ++ [text]) ps
  | .token _ :: ps => docsAfter [] ps
  | .verbatim _ :: ps => docsAfter [] ps

/-- Pieces with a mark between neighbours. -/
def separatedBy (separator : Punct) : List (List Piece) → List Piece
  | [] => []
  | ps :: rest => ps ++ rest.flatMap (.token (.punct separator) :: ·)

section

variable {ps qs : List Piece} {kind : Kind} {text : String} {docs : Docs}

@[simp] theorem kinds_nil : kinds [] = [] := rfl

@[simp] theorem kinds_token : kinds (.token kind :: ps) = kind :: kinds ps := rfl

@[simp] theorem kinds_doc : kinds (.doc text :: ps) = kinds ps := rfl

@[simp] theorem kinds_verbatim : kinds (.verbatim text :: ps) = textKinds text ++ kinds ps := rfl

@[simp] theorem kinds_append : kinds (ps ++ qs) = kinds ps ++ kinds qs := List.flatMap_append

@[simp] theorem kinds_docs (docs : Docs) : kinds (docs.map Piece.doc) = [] := by
  induction docs with
  | nil => rfl
  | cons text docs ih => exact ih

@[simp] theorem kindAt_nil (n : Nat) : kindAt [] n = .eof := rfl

@[simp] theorem kindAt_token_zero : kindAt (.token kind :: ps) 0 = kind := rfl

@[simp] theorem kindAt_token_succ (n : Nat) :
    kindAt (.token kind :: ps) (n + 1) = kindAt ps n := rfl

@[simp] theorem kindAt_doc (n : Nat) : kindAt (.doc text :: ps) n = kindAt ps n := rfl

@[simp] theorem kindAt_docs (docs : Docs) (n : Nat) :
    kindAt (docs.map Piece.doc ++ ps) n = kindAt ps n := by
  rw [kindAt, kinds_append, kinds_docs, List.nil_append, kindAt]

/-- The first token of a text is the first token ahead. -/
theorem kindAt_verbatim (h : (textKinds text).head? = some kind) :
    kindAt (.verbatim text :: ps) 0 = kind := by
  obtain ⟨ks, hks⟩ := List.head?_eq_some_iff.1 h
  rw [kindAt, kinds_verbatim, hks]
  rfl

@[simp] theorem docsAfter_nil : docsAfter docs [] = docs := rfl

@[simp] theorem docsAfter_token : docsAfter docs (.token kind :: ps) = docsAfter [] ps := rfl

@[simp] theorem docsAfter_verbatim : docsAfter docs (.verbatim text :: ps) = docsAfter [] ps := rfl

@[simp] theorem docsAfter_append :
    docsAfter docs (ps ++ qs) = docsAfter (docsAfter docs ps) qs := by
  induction ps generalizing docs with
  | nil => rfl
  | cons p ps ih => cases p <;> exact ih

@[simp] theorem docsAfter_docs (docs more : Docs) :
    docsAfter docs (more.map Piece.doc) = docs ++ more := by
  induction more generalizing docs with
  | nil => exact (List.append_nil docs).symm
  | cons text more ih =>
    rw [List.map_cons, docsAfter, ih, List.append_assoc, List.singleton_append]

end

/-! ## Solid texts -/

/-- A text that begins and ends with a token. -/
def Solid (text : String) : Prop :=
  (∃ raw kind ls, lexemes text.toList = ⟨raw, .token kind⟩ :: ls) ∧
    ∃ raw kind ls, lexemes text.toList = ls ++ [⟨raw, .token kind⟩]

/-- A text that is a single token begins and ends with it. -/
theorem Solid.of_single {text : String} {raw : List Char} {kind : Kind}
    (h : lexemes text.toList = [⟨raw, .token kind⟩]) : Solid text :=
  ⟨⟨raw, kind, [], h⟩, raw, kind, [], h⟩

/-- The tokens of a text that begins and ends with a token reach from its first byte to its last. -/
theorem Solid.locate_append {text : String} (h : Solid text) (pos : Nat) (docs : Docs) :
    ∃ t ts, (t :: ts).map Token.kind = textKinds text ∧ t.docs = docs ∧ t.start = pos ∧
      ((t :: ts).getLast (List.cons_ne_nil t ts)).stop = pos + utf8Size text.toList ∧
      ∀ ms, locate pos docs (lexemes text.toList ++ ms) =
        t :: ts ++ locate (pos + utf8Size text.toList) [] ms := by
  obtain ⟨⟨raw, kind, ls, hfirst⟩, raw', kind', ls', hlast⟩ := h
  obtain ⟨ts, waiting, hkinds, hts⟩ := Token.locate_append pos docs ls'
  have hsize : utf8Size text.toList = utf8Size (rawText ls') + utf8Size raw' := by
    rw [← flatMap_raw_lexemes text.toList, hlast, ← utf8Size_append]
    simp [rawText]
  -- The last token closes the list of tokens, and nothing waits after it.
  obtain ⟨final, hkind, hstop, hfinal⟩ : ∃ final : Token, final.kind = kind' ∧
      final.stop = pos + utf8Size text.toList ∧ ∀ ms,
      locate pos docs (lexemes text.toList ++ ms) =
        ts ++ [final] ++ locate (pos + utf8Size text.toList) [] ms := by
    refine ⟨⟨kind', pos + utf8Size (rawText ls'), pos + utf8Size text.toList, waiting⟩, rfl, rfl,
      fun ms => ?_⟩
    rw [hlast, List.append_assoc, hts, List.singleton_append, locate, hsize, List.append_assoc,
      Nat.add_assoc, List.singleton_append]
  have hkindsAll : (ts ++ [final]).map Token.kind = textKinds text := by
    rw [textKinds, hlast, List.map_append, hkinds, List.filterMap_append, List.map_singleton, hkind]
    rfl
  generalize hall : ts ++ [final] = all at hfinal hkindsAll
  cases all with
  | nil => exact absurd hall (by simp)
  | cons t rest =>
    have hhead := hfinal []
    rw [hfirst, List.cons_append, List.cons_append, locate] at hhead
    obtain ⟨rfl, -⟩ := List.cons.inj hhead
    refine ⟨_, rest, hkindsAll, rfl, rfl, ?_, hfinal⟩
    simp only [← hall, List.getLast_concat, hstop]

/-- The tokens of lexemes are those of the pieces they are laid out as. -/
theorem Laid.filterMap_kind {ls : List Lexeme} {ps : List Piece} (h : Laid ls ps) :
    ls.filterMap Lexeme.kind? = kinds ps := by
  induction h with
  | nil => rfl
  | gap _ ih => exact ih
  | piece hown _ ih =>
    rw [List.filterMap_append, ih]
    cases hown <;> rfl

end Token

open Token Text

/-- What stands ahead of a cursor: the pieces of the rest of the source, and the documentation
comments that wait for the next token. -/
def Cursor.Spells (c : Cursor) (docs : Docs) (ps : List Piece) : Prop :=
  ∃ before ls, c.source = before ++ rawText ls ∧
    c.rest ++ [c.last] = locate (utf8Size before) docs ls ∧ Laid ls ps

namespace Cursor

/-- The first place of a source spells the whole source. -/
theorem spells_start {source : String} {ps : List Piece} (h : Laid (lexemes source.toList) ps) :
    (start source).Spells [] ps := by
  refine ⟨[], lexemes source.toList, (flatMap_raw_lexemes _).symm, ?_, h⟩
  have hne := locate_ne_nil 0 [] (lexemes source.toList)
  have hlast : (locate 0 [] (lexemes source.toList)).getLast? =
      some ((locate 0 [] (lexemes source.toList)).getLast hne) := List.getLast?_eq_some_getLast hne
  rw [start, scan]
  simp only [hlast, Option.getD_some]
  exact List.dropLast_concat_getLast hne

namespace Spells

variable {c : Cursor} {docs : Docs} {ps : List Piece}

/-- The tokens ahead of a cursor are those of the pieces, and the end comes after them. -/
theorem map_kind (h : c.Spells docs ps) :
    c.rest.map Token.kind = kinds ps ∧ c.last.kind = .eof := by
  obtain ⟨before, ls, -, htokens, hlaid⟩ := h
  have hkinds : (c.rest ++ [c.last]).map Token.kind = kinds ps ++ [.eof] := by
    rw [htokens, map_kind_locate, hlaid.filterMap_kind]
  rw [List.map_append, List.map_singleton] at hkinds
  obtain ⟨hrest, hlast⟩ := List.append_inj' hkinds rfl
  exact ⟨hrest, List.cons.inj hlast |>.1⟩

/-- The kind seen from a cursor is that of the pieces. -/
theorem kindAt_eq (h : c.Spells docs ps) (n : Nat) : c.kindAt n = Token.kindAt ps n := by
  obtain ⟨hrest, hlast⟩ := h.map_kind
  rw [Cursor.kindAt, Token.kindAt, ← hrest, ← hlast]
  simp only [List.getD_eq_getElem?_getD, List.getElem?_map]
  cases c.rest[n]? <;> rfl

/-- There are as many tokens ahead as the pieces have. -/
theorem length_rest (h : c.Spells docs ps) : c.rest.length = (kinds ps).length := by
  rw [← h.map_kind.1, List.length_map]

/-- A comment waits for the next token. -/
theorem doc {text : String} (h : c.Spells docs (.doc text :: ps)) :
    c.Spells (docs ++ [text]) ps := by
  obtain ⟨before, ls, hsource, htokens, hlaid⟩ := h
  obtain ⟨gap, _, ls', rfl, hgap, hown, hls'⟩ := hlaid.cons_inv
  cases hown with
  | doc raw =>
    rw [List.singleton_append] at hsource htokens
    refine ⟨before ++ rawText gap ++ raw, ls', ?_, ?_, hls'⟩
    · rw [hsource]
      simp only [rawText_append, rawText_cons, List.append_assoc]
    · rw [htokens, locate_gap hgap, locate, utf8Size_append, utf8Size_append]

/-- Comments in front of the pieces may be counted as waiting. -/
theorem docs_append {more : Docs} (h : c.Spells docs (more.map .doc ++ ps)) :
    c.Spells (docs ++ more) ps := by
  induction more generalizing docs with
  | nil => rwa [List.append_nil]
  | cons text more ih =>
    have hmore := ih (doc h)
    rwa [List.append_assoc] at hmore

/-- The token at a cursor has the comments that wait, and after it none wait. -/
theorem token {kind : Kind} (h : c.Spells docs (.token kind :: ps)) :
    c.current.docs = docs ∧ c.next.Spells [] ps := by
  obtain ⟨before, ls, hsource, htokens, hlaid⟩ := h
  obtain ⟨gap, _, ls', rfl, hgap, hown, hls'⟩ := hlaid.cons_inv
  obtain ⟨raw⟩ := hown
  rw [List.singleton_append] at hsource htokens
  rw [locate_gap hgap, locate] at htokens
  -- The end is not the current token, since the pieces ahead hold one.
  obtain ⟨t, rest, hrest⟩ : ∃ t rest, c.rest = t :: rest := by
    cases hcases : c.rest with
    | nil =>
      rw [hcases] at htokens
      exact absurd (List.cons.inj htokens).2.symm (locate_ne_nil _ _ _)
    | cons t rest => exact ⟨t, rest, rfl⟩
  rw [hrest, List.cons_append] at htokens
  obtain ⟨rfl, htail⟩ := List.cons.inj htokens
  constructor
  · rw [current, hrest]
    rfl
  · refine ⟨before ++ rawText gap ++ raw, ls', ?_, ?_, hls'⟩
    · rw [next, hsource]
      simp only [rawText_append, rawText_cons, List.append_assoc]
    · rw [next, hrest, List.tail_cons, htail, utf8Size_append, utf8Size_append]

/-- A stretch of text is passed as a whole: its tokens are ahead, from its first byte to its last.
-/
theorem verbatim {text : String} (hsolid : Solid text) (h : c.Spells docs (.verbatim text :: ps)) :
    ∃ t ts rest, c.rest = t :: ts ++ rest ∧ (t :: ts).map Token.kind = textKinds text ∧
      t.docs = docs ∧
      slice c.source t.start ((t :: ts).getLast (List.cons_ne_nil t ts)).stop = text.toList ∧
      { c with rest := rest }.Spells [] ps := by
  obtain ⟨before, ls, hsource, htokens, hlaid⟩ := h
  obtain ⟨gap, _, ls', rfl, hgap, hown, hls'⟩ := hlaid.cons_inv
  obtain ⟨⟩ := hown
  obtain ⟨t, ts, hkinds, hdocs, hstart, hstop, hall⟩ :=
    hsolid.locate_append (utf8Size (before ++ rawText gap)) docs
  have hne := locate_ne_nil (utf8Size (before ++ rawText gap) + utf8Size text.toList) [] ls'
  rw [locate_gap hgap, ← utf8Size_append, hall, ← List.dropLast_concat_getLast hne,
    ← List.append_assoc] at htokens
  obtain ⟨hrest, hlast⟩ := List.append_inj' htokens rfl
  have hraw : c.source = before ++ rawText gap ++ (text.toList ++ rawText ls') := by
    have htext : rawText (lexemes text.toList) = text.toList := flatMap_raw_lexemes _
    rw [hsource, rawText_append, rawText_append, htext, List.append_assoc]
  refine ⟨t, ts, _, hrest, hkinds, hdocs, ?_, before ++ rawText gap ++ text.toList, ls', ?_, ?_,
    hls'⟩
  · rw [hraw, hstart, hstop, slice_append]
  · rw [hraw, List.append_assoc (before ++ rawText gap)]
  · rw [(List.cons.inj hlast).1, List.dropLast_concat_getLast,
      utf8Size_append (before ++ rawText gap)]

end Spells

end Cursor

end DeclLayer
