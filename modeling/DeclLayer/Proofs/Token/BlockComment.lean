import DeclLayer.Proofs.Token.DocComment
import DeclLayer.Proofs.Token.LineComment

/-!
# Block comments

A block comment is one lexeme, which ends at the first mark that closes it (`Token.lexemes_block`).
It gives no token. If it is a documentation comment, its text waits for the next token: what waits
is carried over all lexemes that are no tokens, and taken by the first one that is, the end of the
text at the latest (`Token.locate_addDocs`). So a comment in front of a text moves the tokens of the
text, and the first of them gets its documentation (`Token.scan_block`). White space does the same
without any documentation, and so do such texts in a row, with that of all of them
(`Token.Precedes`).
-/

namespace DeclLayer

namespace Comment

/-- The documentation in a block comment with the given body. It has some if a second star opens it
and the rest is not blank. -/
def blockDocs : List Char → List String
  | '*' :: body => (cleanDoc body).toList
  | _ => []

/-- A comment without a closing mark inside is read up to the one behind it, also if it ends with
stars. -/
theorem block_closeFree {c : List Char} (h : closeFree c) (rest : List Char) :
    blockBody (c ++ '*' :: '/' :: rest) = c ∧ blockRest (c ++ '*' :: '/' :: rest) = rest := by
  have hstar : closeFree (c ++ ['*']) := closeFree_append h (by decide) (.inr (by decide))
  have hread : ('*' :: '/' :: rest).drop 2 = rest := rfl
  rw [blockBody, blockRest, block_append hstar, List.take_left, if_pos rfl, ← List.drop_drop,
    List.drop_left, hread]
  exact ⟨rfl, rfl⟩

end Comment

namespace Token

open Comment Text

/-! ## The lexeme of a comment -/

/-- The documentation that a lexeme leaves to the next token. -/
def Content.docs : Content → List String
  | .doc text => [text]
  | _ => []

/-- A comment is no token. -/
theorem blockContent_ne_token (c : List Char) (kind : Kind) : blockContent c ≠ .token kind := by
  rw [blockContent.eq_def]
  split
  · split <;> nofun
  · nofun

/-- What a block comment documents is its cleaned text, if it is a documentation comment. -/
theorem docs_blockContent (c : List Char) : (blockContent c).docs = blockDocs c := by
  fun_cases blockDocs c with
  | case1 body =>
    rw [blockContent]
    cases cleanDoc body <;> rfl
  | case2 c hdoc =>
    rw [blockContent.eq_2 c hdoc]
    rfl

/-- A comment is one lexeme, whatever follows it. -/
theorem lexemes_block {c : List Char} (h : closeFree c) (rest : List Char) :
    lexemes ('/' :: '*' :: (c ++ '*' :: '/' :: rest)) =
      ⟨'/' :: '*' :: (c ++ ['*', '/']), blockContent c⟩ :: lexemes rest := by
  obtain ⟨hbody, hrest⟩ := block_closeFree h rest
  obtain ⟨hcontent, hdrop⟩ := slashes_block (c ++ '*' :: '/' :: rest)
  have hsplit : '*' :: (c ++ '*' :: '/' :: rest) = '*' :: (c ++ ['*', '/']) ++ rest := by
    rw [List.cons_append, List.append_assoc]
    rfl
  rw [hbody, hsplit] at hcontent
  rw [hrest, hsplit] at hdrop
  rw [hsplit]
  exact lexemes_slash hcontent hdrop

/-! ## Waiting documentation -/

/-- Documentation in front of that of the first token. -/
def addDocs (docs : List String) : List Token → List Token
  | [] => []
  | t :: ts => { t with docs := docs ++ t.docs } :: ts

/-- No documentation changes nothing. -/
theorem addDocs_nil (ts : List Token) : addDocs [] ts = ts := by
  cases ts <;> rfl

/-- Documentation that is added twice is added in order: the comment further in front comes first.
-/
theorem addDocs_addDocs (docs later : List String) (ts : List Token) :
    addDocs docs (addDocs later ts) = addDocs (docs ++ later) ts := by
  cases ts with
  | nil => rfl
  | cons t ts =>
    rw [addDocs, addDocs, addDocs]
    dsimp only
    rw [List.append_assoc]

/-- Documentation is added to moved tokens as to the tokens before. -/
theorem map_shift_addDocs (n : Nat) (docs : List String) (ts : List Token) :
    (addDocs docs ts).map (shift n) = addDocs docs (ts.map (shift n)) := by
  cases ts <;> rfl

/-- What waits longest is the first documentation of the next token. The other tokens do not get any
of it. -/
theorem locate_addDocs (pos : Nat) (docs waiting : List String) (ls : List Lexeme) :
    locate pos (docs ++ waiting) ls = addDocs docs (locate pos waiting ls) := by
  induction ls generalizing pos waiting with
  | nil => rfl
  | cons l ls ih =>
    obtain ⟨raw, content⟩ := l
    cases content with
    | token kind => rfl
    | doc text =>
      rw [locate, locate]
      dsimp only
      rw [List.append_assoc, ih]
    | skipped => exact ih _ _

/-- A lexeme that is no token moves the tokens behind it, and leaves its documentation to the first
of them. -/
theorem locate_cons {l : Lexeme} (h : ∀ kind, l.content ≠ .token kind) (pos : Nat)
    (ls : List Lexeme) :
    locate pos [] (l :: ls) = addDocs l.content.docs (locate (pos + utf8Size l.raw) [] ls) := by
  rw [← locate_addDocs, List.append_nil, locate]
  cases hcontent : l.content with
  | token kind => exact absurd hcontent (h kind)
  | doc text => rfl
  | skipped => rfl

/-! ## Comments in front of a text -/

/-- A block comment with the given body. -/
def blockText (c : String) : String :=
  "/*" ++ c ++ "*/"

/-- A text without tokens of its own: whatever follows it, the tokens of that are moved, and the
first of them gets documentation. -/
def Precedes (text : String) (docs : List String) : Prop :=
  ∀ rest, scan (text ++ rest) = addDocs docs ((scan rest).map (shift (utf8Size text.toList)))

namespace Precedes

/-- An empty text moves nothing and documents nothing. -/
theorem empty : Precedes "" [] := by
  intro rest
  have hsame : (scan rest).map (shift 0) = scan rest := List.map_id _
  exact (congrArg scan String.empty_append).trans ((addDocs_nil _).trans hsame).symm

/-- Two texts without tokens of their own add their documentation in order. -/
theorem append {s t : String} {docs later : List String} (hs : Precedes s docs)
    (ht : Precedes t later) : Precedes (s ++ t) (docs ++ later) := by
  intro rest
  rw [String.append_assoc, hs, ht, map_shift_addDocs, addDocs_addDocs, map_shift_map_shift,
    String.toList_append, utf8Size_append]

/-- Texts in a row, each with its documentation. -/
theorem join {α : Type} {text : α → String} {docs : α → List String} {as : List α}
    (h : ∀ a ∈ as, Precedes (text a) (docs a)) :
    Precedes (String.join (as.map text)) (as.flatMap docs) := by
  induction as with
  | nil => exact empty
  | cons a as ih =>
    obtain ⟨ha, has⟩ := List.forall_mem_cons.1 h
    rw [List.map_cons, String.join_cons, List.flatMap_cons]
    exact ha.append (ih has)

/-- White space documents nothing. -/
theorem blank {s : String} (h : Blank s.toList) : Precedes s [] := by
  intro rest
  obtain ⟨gap, hgap, hraw, hlexemes⟩ := exists_lexemes_blank h rest.toList
  rw [scan, String.toList_append, hlexemes, locate_gap hgap, hraw, Nat.zero_add, locate_eq_shift,
    addDocs_nil]

/-- The documentation of a comment is left to the first token behind it. -/
theorem block {c : String} (h : closeFree c.toList) :
    Precedes (blockText c) (blockDocs c.toList) := by
  intro rest
  have htext : (blockText c).toList = '/' :: '*' :: (c.toList ++ ['*', '/']) := by
    simp only [blockText, String.toList_append, List.append_assoc]
    rfl
  have hall : (blockText c ++ rest).toList =
      '/' :: '*' :: (c.toList ++ '*' :: '/' :: rest.toList) := by
    rw [String.toList_append, htext]
    simp only [List.cons_append, List.append_assoc, List.nil_append]
  rw [scan, hall, lexemes_block h, locate_cons (blockContent_ne_token _), docs_blockContent,
    Nat.zero_add, locate_eq_shift, htext]

end Precedes

/-- Any number of comments in front of a text leave their documentation to its first token, in
order. -/
theorem scan_blocks {cs : List String} (h : ∀ c ∈ cs, closeFree c.toList) (rest : String) :
    scan (String.join (cs.map blockText) ++ rest) =
      addDocs (cs.flatMap fun c => blockDocs c.toList)
        ((scan rest).map (shift (utf8Size (String.join (cs.map blockText)).toList))) := by
  have hblocks : ∀ c ∈ cs, Precedes (blockText c) (blockDocs c.toList) :=
    fun c hc => .block (h c hc)
  exact Precedes.join hblocks rest

/-- A block comment in front of a text moves the tokens of the text by its own size. Nothing else
changes, except that the first token, which can be the end of the text, gets the documentation in
the comment, in front of its own. -/
theorem scan_block (c rest : String) (h : closeFree c.toList) :
    ∃ first later, scan rest = first :: later ∧
      scan (blockText c ++ rest) =
        { shift (utf8Size (blockText c).toList) first with
          docs := blockDocs c.toList ++ first.docs } ::
        later.map (shift (utf8Size (blockText c).toList)) := by
  obtain ⟨first, later, hscan⟩ : ∃ first later, scan rest = first :: later :=
    List.exists_cons_of_ne_nil (locate_ne_nil 0 [] (lexemes rest.toList))
  refine ⟨first, later, hscan, ?_⟩
  rw [Precedes.block h rest, hscan]
  rfl

/-- A comment with stars at both ends, in front of a text that begins with documentation. -/
theorem scan_block_stars :
    closeFree "** é **".toList ∧ blockDocs "** é **".toList = ["é **"] ∧
      scan "/** B */ x" = [⟨.ident "x", 9, 10, ["B"]⟩, ⟨.eof, 10, 10, []⟩] ∧
      scan (blockText "** é **" ++ "/** B */ x") =
        [⟨.ident "x", 21, 22, ["é **", "B"]⟩, ⟨.eof, 22, 22, []⟩] := by
  have hfree : closeFree "** é **".toList := by decide +kernel
  have hdocs : blockDocs "** é **".toList = ["é **"] := by decide +kernel
  have hscan : scan "/** B */ x" = [⟨.ident "x", 9, 10, ["B"]⟩, ⟨.eof, 10, 10, []⟩] := by
    decide +kernel
  obtain ⟨first, later, hrest, hblock⟩ := scan_block "** é **" "/** B */ x" hfree
  obtain ⟨rfl, rfl⟩ := List.cons.inj (hscan.symm.trans hrest)
  rw [hdocs] at hblock
  exact ⟨hfree, hdocs, hscan, hblock.trans (by decide +kernel)⟩

end Token

end DeclLayer
