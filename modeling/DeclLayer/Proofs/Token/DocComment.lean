import DeclLayer.Proofs.Text.Cutting
import DeclLayer.Proofs.Token.Spelling
import DeclLayer.Render.Type

/-!
# Documentation comments are read back

A documentation comment is kept as its lines, without the gutter in front of them and the empty
lines around them (`Comment.IsDoc`). Written with a new gutter at any depth, it is one comment again
(`Comment.closeFree` says that nothing in it closes it), and cleaning that comment gives the same
text (`Comment.cleanDoc_written`). Of what is printed for a text, `Layout.exists_body` says both.
-/

namespace DeclLayer

namespace Comment

open Text

/-! ## What closes a comment -/

/-- Nothing closes a comment: no star stands before a slash. -/
def closeFree (cs : List Char) : Prop :=
  ¬['*', '/'] <:+: cs

instance (cs : List Char) : Decidable (closeFree cs) :=
  inferInstanceAs (Decidable (¬['*', '/'] <:+: cs))

/-- Nothing closes a comment inside a part of a text where nothing does. -/
theorem closeFree.infix {cs ds : List Char} (h : closeFree ds) (hcs : cs <:+: ds) : closeFree cs :=
  fun hclose => h (hclose.trans hcs)

/-- Nothing closes a comment behind the first character either. -/
theorem closeFree.tail {c : Char} {cs : List Char} (h : closeFree (c :: cs)) : closeFree cs :=
  h.infix (List.suffix_cons c cs).isInfix

/-- Without a star nothing closes a comment. -/
theorem closeFree_of_not_mem {cs : List Char} (h : '*' ∉ cs) : closeFree cs :=
  fun hclose => h (hclose.subset (List.mem_cons_self ..))

/-- A comment goes on up to the first mark that closes it. -/
theorem block_append {cs : List Char} (h : closeFree (cs ++ ['*'])) (r : List Char) :
    block (cs ++ '*' :: '/' :: r) = (cs.length, true) := by
  induction cs with
  | nil => rw [List.nil_append, block, List.length_nil]
  | cons c cs ih =>
    rw [List.cons_append, block, ih h.tail, List.length_cons]
    rintro ds rfl hds
    -- A star before a slash would close the comment here.
    cases cs with
    | nil => exact absurd (List.cons.inj hds).1 (by decide)
    | cons d cs =>
      obtain ⟨rfl, -⟩ := List.cons.inj hds
      exact h ⟨[], cs ++ ['*'], rfl⟩

/-- Texts in a row hold no closing mark if none of them does, and none begins with a slash. -/
theorem closeFree_append {cs ds : List Char} (hcs : closeFree cs) (hds : closeFree ds)
    (hhead : cs.getLast? ≠ some '*' ∨ ds.head? ≠ some '/') : closeFree (cs ++ ds) := by
  induction cs with
  | nil => exact hds
  | cons c cs ih =>
    rintro ⟨before, after, hclose⟩
    cases before with
    | nil =>
      obtain ⟨rfl, hrest⟩ := List.cons.inj hclose
      cases cs with
      | nil =>
        have hslash : ds.head? = some '/' := by
          rw [← (show '/' :: after = ds from hrest)]
          rfl
        rcases hhead with hstar | hnot
        · exact hstar rfl
        · exact hnot hslash
      | cons d cs =>
        obtain ⟨rfl, -⟩ := List.cons.inj hrest
        exact hcs ⟨[], cs, rfl⟩
    | cons b before =>
      obtain ⟨rfl, hrest⟩ := List.cons.inj hclose
      refine ih hcs.tail ?_ ⟨before, after, hrest⟩
      rcases hhead with hstar | hnot
      · refine .inl fun h => hstar ?_
        rw [List.getLast?_cons, h]
        rfl
      · exact .inr hnot

/-! ## Cleaned comments -/

/-- The text of a documentation comment, cleaned from a comment that is not closed inside. -/
def IsDoc (text : String) : Prop :=
  ∃ body, closeFree body ∧ cleanDoc body = some text

/-- The lines that a cleaned comment can have. -/
structure CleanLine (line : List Char) : Prop where
  oneLine : '\n' ∉ line
  trimmed : ∀ c ∈ line.getLast?, isBlank c = false
  open_ : closeFree line

/-- A cleaned line is a part of the line. -/
theorem cleanLine_infix (line : List Char) : cleanLine line <:+: line := by
  have hback : ∀ cs : List Char, trimBack cs <+: cs := fun cs => dropBackWhile_initial cs
  have hfront : trimFront line <:+ line := List.dropWhile_suffix _
  rw [cleanLine]
  refine (hback _).isInfix.trans ((?_ : List.IsSuffix _ _).trans hfront).isInfix
  -- at most a blank is taken off behind at most a star
  split
  · next rest heq =>
    refine (List.suffix_cons ' ' rest).trans ?_
    rw [← heq]
    split
    · next heq => exact heq ▸ List.suffix_cons _ _
    · exact List.suffix_rfl
  · split
    · next heq => exact heq ▸ List.suffix_cons _ _
    · exact List.suffix_rfl

/-- The lines of a comment that is not closed inside are clean once they are cleaned. -/
theorem cleanLine_clean {body line : List Char} (hbody : closeFree body)
    (h : line ∈ linesOf body) : CleanLine (cleanLine line) := by
  obtain ⟨hfeed, hinfix⟩ := infix_of_mem_linesOf h
  have hclean := cleanLine_infix line
  refine ⟨fun hmem => hfeed (hclean.subset hmem), ?_, hbody.infix (hclean.trans hinfix)⟩
  rw [cleanLine]
  exact getLast?_dropBackWhile _

/-- The text of a comment is made of clean lines, of which the first and the last are not empty. -/
theorem IsDoc.lines {text : String} (h : IsDoc text) :
    ∃ lines : List (List Char), text = joinWith "\n" (lines.map String.ofList) ∧
      (∀ line ∈ lines, CleanLine line) ∧ (∃ line rest, lines = line :: rest ∧ line ≠ []) ∧
      ∀ line ∈ lines.getLast?, line ≠ [] := by
  obtain ⟨body, hbody, hclean⟩ := h
  rw [cleanDoc] at hclean
  split at hclean
  · cases hclean
  · next hkept =>
    refine ⟨_, (Option.some.inj hclean).symm, fun line hline => ?_, ?_, fun line hline => ?_⟩
    · have hmem : line ∈ (linesOf body).map cleanLine :=
        (List.dropWhile_sublist _).subset ((dropBackWhile_initial _).subset hline)
      obtain ⟨raw, hraw, rfl⟩ := List.mem_map.1 hmem
      exact cleanLine_clean hbody hraw
    · cases hcases : dropBackWhile List.isEmpty
          (((linesOf body).map cleanLine).dropWhile List.isEmpty) with
      | nil => exact absurd hcases hkept
      | cons line rest =>
        obtain ⟨after, hafter⟩ := hcases ▸ dropBackWhile_initial (p := List.isEmpty)
          (((linesOf body).map cleanLine).dropWhile List.isEmpty)
        have hhead := List.head?_dropWhile_not List.isEmpty ((linesOf body).map cleanLine)
        rw [← hafter] at hhead
        refine ⟨line, rest, rfl, ?_⟩
        rintro rfl
        cases hhead
    · have hlast := getLast?_dropBackWhile (p := List.isEmpty) _ line hline
      rintro rfl
      cases hlast

/-- The lines of the text of a comment. -/
theorem lines_joinWith {lines : List (List Char)} (h : ∀ line ∈ lines, CleanLine line)
    (hlast : ∀ line ∈ lines.getLast?, line ≠ []) :
    linesOf (joinWith "\n" (lines.map String.ofList)).toList = lines := by
  induction lines with
  | nil => rfl
  | cons line lines ih =>
    obtain ⟨hline, hlines⟩ := List.forall_mem_cons.1 h
    cases lines with
    | nil =>
      rw [List.map_singleton, joinWith, String.intercalate_singleton, String.toList_ofList]
      exact linesOf_last hline.oneLine (hlast line rfl)
    | cons next rest =>
      have hreturn : line.getLast? ≠ some '\r' := by
        intro hr
        exact absurd (hline.trimmed '\r' hr) (by decide)
      have hrest := ih hlines hlast
      rw [List.map_cons, joinWith] at hrest
      rw [List.map_cons, List.map_cons, joinWith, String.intercalate_cons_cons,
        String.toList_append, String.toList_append, String.toList_ofList, List.append_assoc]
      exact (linesOf_append_newline hline.oneLine hreturn _).trans (congrArg _ hrest)

/-! ## Written comments -/

/-- A text that indents a line. -/
def IsIndent (indent : List Char) : Prop :=
  ∀ c ∈ indent, c = ' ' ∨ c = '\t'

/-- Indentation is white space. -/
theorem IsIndent.isBlank {indent : List Char} (h : IsIndent indent) :
    ∀ c ∈ indent, isBlank c = true := by
  intro c hc
  rcases h c hc with rfl | rfl <;> decide

/-- A line with the space before it, unless it is empty. -/
def padded : List Char → List Char
  | [] => []
  | line => ' ' :: line

/-- A line in its gutter. -/
def gutter (indent line : List Char) : List Char :=
  indent ++ ' ' :: '*' :: padded line

/-- A comment in its gutter, between its opening and its closing mark. -/
def written (indent : List Char) (lines : List (List Char)) : List Char :=
  '\n' :: (lines.flatMap (fun line => gutter indent line ++ ['\n']) ++ (indent ++ [' ']))

section

variable {indent : List Char} (hindent : IsIndent indent)

include hindent

/-- Trimming the front of an indented text takes the indentation away. -/
theorem trimFront_indent (cs : List Char) : trimFront (indent ++ ' ' :: cs) = trimFront cs := by
  rw [trimFront, List.dropWhile_append_of_pos hindent.isBlank,
    List.dropWhile_cons_of_pos (by decide)]
  rfl

/-- The gutter is taken off again. -/
theorem cleanLine_gutter {line : List Char} (h : CleanLine line) :
    cleanLine (gutter indent line) = line := by
  have htrim : trimBack line = line := dropBackWhile_eq_self h.trimmed
  rw [gutter, cleanLine, trimFront_indent hindent]
  cases line with
  | nil => rfl
  | cons c line => exact htrim

/-- The last line of a written comment is empty once it is cleaned. -/
theorem cleanLine_last : cleanLine (indent ++ [' ']) = [] := by
  rw [cleanLine, trimFront_indent hindent]
  rfl

/-- A clean line in its gutter is one line, and ends with no return. -/
theorem newline_not_mem_gutter {line : List Char} (h : CleanLine line) :
    '\n' ∉ gutter indent line ∧ (gutter indent line).getLast? ≠ some '\r' := by
  have hfeed : '\n' ∉ indent := by
    intro hmem
    rcases hindent _ hmem with h | h <;> exact absurd h (by decide)
  cases line with
  | nil =>
    rw [gutter, List.mem_append, not_or, List.getLast?_append]
    refine ⟨⟨hfeed, by decide⟩, ?_⟩
    show some '*' ≠ some '\r'
    decide
  | cons c line =>
    have hlast : (c :: line).getLast? ≠ some '\r' := by
      intro hr
      exact absurd (h.trimmed '\r' hr) (by decide)
    have hpadded : padded (c :: line) = ' ' :: c :: line := rfl
    rw [gutter, hpadded, List.mem_append, not_or, List.getLast?_append, List.getLast?_cons_cons,
      List.getLast?_cons_cons, List.getLast?_cons_cons, List.getLast?_cons]
    refine ⟨⟨hfeed, ?_⟩, ?_⟩
    · rw [List.mem_cons, List.mem_cons, List.mem_cons, not_or, not_or, not_or]
      exact ⟨by decide, by decide, by decide, h.oneLine⟩
    · rw [List.getLast?_cons] at hlast
      exact hlast

/-- The lines of a written comment are an empty one, the lines in their gutters, and the last one.
-/
theorem linesOf_written {lines : List (List Char)} (h : ∀ line ∈ lines, CleanLine line) :
    linesOf (written indent lines) =
      [] :: (lines.map (gutter indent) ++ [indent ++ [' ']]) := by
  have hlast : linesOf (indent ++ [' ']) = [indent ++ [' ']] := by
    refine linesOf_last ?_ (by simp)
    rw [List.mem_append, not_or]
    refine ⟨fun hmem => ?_, by decide⟩
    rcases hindent _ hmem with h | h <;> exact absurd h (by decide)
  rw [written, linesOf]
  congr 1
  induction lines with
  | nil => exact hlast
  | cons line lines ih =>
    obtain ⟨hline, hlines⟩ := List.forall_mem_cons.1 h
    obtain ⟨hfeed, hreturn⟩ := newline_not_mem_gutter hindent hline
    rw [List.flatMap_cons, List.append_assoc, List.append_assoc, List.singleton_append,
      linesOf_append_newline hfeed hreturn, ih hlines, List.map_cons, List.cons_append]

/-- Cleaning a written comment gives its text. -/
theorem cleanDoc_written {lines : List (List Char)} (h : ∀ line ∈ lines, CleanLine line)
    (hfirst : ∃ line rest, lines = line :: rest ∧ line ≠ [])
    (hlast : ∀ line ∈ lines.getLast?, line ≠ []) :
    cleanDoc (written indent lines) = some (joinWith "\n" (lines.map String.ofList)) := by
  have hclean : (linesOf (written indent lines)).map cleanLine = [] :: (lines ++ [[]]) := by
    rw [linesOf_written hindent h, List.map_cons, List.map_append, List.map_singleton,
      cleanLine_last hindent, List.map_map]
    have hmap : lines.map (cleanLine ∘ gutter indent) = lines := by
      refine (List.map_congr_left fun line hline => ?_).trans (List.map_id _)
      exact cleanLine_gutter hindent (h line hline)
    rw [hmap]
    rfl
  have hfront : ([] :: (lines ++ [[]])).dropWhile List.isEmpty = lines ++ [[]] := by
    obtain ⟨line, rest, rfl, hne⟩ := hfirst
    have hline : line.isEmpty = false := by
      cases line with
      | nil => exact absurd rfl hne
      | cons c line => rfl
    show (line :: (rest ++ [[]])).dropWhile List.isEmpty = _
    rw [List.dropWhile_cons, hline, if_neg Bool.false_ne_true]
    rfl
  have hback : dropBackWhile List.isEmpty (lines ++ [[]]) = lines := by
    rw [dropBackWhile_concat (p := List.isEmpty) rfl]
    refine dropBackWhile_eq_self fun line hline => ?_
    cases line with
    | nil => exact absurd rfl (hlast [] hline)
    | cons c line => rfl
  rw [cleanDoc, hclean, hfront, hback]
  obtain ⟨line, rest, rfl, -⟩ := hfirst
  rfl

/-- Indentation closes no comment. -/
theorem closeFree_indent_append {cs : List Char} (h : closeFree (' ' :: cs)) :
    closeFree (indent ++ ' ' :: cs) := by
  refine closeFree_append (closeFree_of_not_mem fun hmem => ?_) h (.inr ?_)
  · rcases hindent _ hmem with h | h <;> exact absurd h (by decide)
  · show some ' ' ≠ some '/'
    decide

/-- A clean line in its gutter closes no comment. -/
theorem closeFree_gutter {line : List Char} (h : CleanLine line) :
    closeFree (gutter indent line ++ ['\n']) := by
  rw [gutter, List.append_assoc]
  refine closeFree_indent_append hindent ?_
  cases line with
  | nil => decide
  | cons c line =>
    have hline : closeFree ([' '] ++ (c :: line)) :=
      closeFree_append (by decide) h.open_ (.inl (by decide))
    have hend : closeFree ([' '] ++ (c :: line) ++ ['\n']) :=
      closeFree_append hline (by decide) (.inr (by decide))
    have hmark : closeFree [' ', '*'] := by decide
    refine closeFree_append hmark hend (.inr ?_)
    show some ' ' ≠ some '/'
    decide

/-- Nothing in a written comment closes it before its closing mark. -/
theorem closeFree_written {lines : List (List Char)} (h : ∀ line ∈ lines, CleanLine line) :
    closeFree ('*' :: written indent lines ++ ['*']) := by
  have hlines : closeFree (lines.flatMap (fun line => gutter indent line ++ ['\n']) ++
      (indent ++ [' ', '*'])) := by
    induction lines with
    | nil => exact closeFree_indent_append hindent (by decide)
    | cons line lines ih =>
      obtain ⟨hline, hlines⟩ := List.forall_mem_cons.1 h
      rw [List.flatMap_cons, List.append_assoc]
      exact closeFree_append (closeFree_gutter hindent hline) (ih hlines) (.inl (by simp))
  have heq : '*' :: written indent lines ++ ['*'] =
      ['*', '\n'] ++ (lines.flatMap (fun line => gutter indent line ++ ['\n']) ++
        (indent ++ [' ', '*'])) := by
    simp [written]
  rw [heq]
  exact closeFree_append (by decide) hlines (.inl (by decide))

end

end Comment

namespace Token

open Text Comment

/-- A comment that nothing closes early, and that has a text when it is cleaned, is a lexeme. -/
theorem lexeme_doc {body : List Char} {text : String} (hfree : closeFree ('*' :: body ++ ['*']))
    (hclean : cleanDoc body = some text) (r : List Char) :
    lexeme '/' ('*' :: '*' :: (body ++ ['*', '/']) ++ r) =
      (.doc text, ('*' :: '*' :: (body ++ ['*', '/'])).length) := by
  have hblock := block_append hfree r
  have hchars : '*' :: '*' :: (body ++ ['*', '/']) ++ r =
      '*' :: ('*' :: body ++ '*' :: '/' :: r) := by
    simp
  have hlexeme : lexeme '/' ('*' :: ('*' :: body ++ '*' :: '/' :: r)) =
      slashes ('*' :: ('*' :: body ++ '*' :: '/' :: r)) := rfl
  have htake : ('*' :: body ++ '*' :: '/' :: r).take ('*' :: body).length = '*' :: body :=
    List.take_left
  have hlength : 1 + ('*' :: body).length + 2 = ('*' :: '*' :: (body ++ ['*', '/'])).length := by
    simp only [List.length_cons, List.length_append, List.length_nil]
    omega
  rw [hchars, hlexeme, slashes, hblock]
  dsimp only
  rw [htake, ← hlength]
  simp only [hclean, if_true]

/-- An indentation adds nothing. -/
theorem Writes.indent {indent : String} (h : IsIndent indent.toList) : Writes free indent [] := by
  intro r qs _ hqs
  generalize indent.toList = cs at h
  induction cs with
  | nil => exact hqs
  | cons c cs ih =>
    obtain ⟨hc, hcs⟩ := List.forall_mem_cons.1 h
    have hgap : lexeme c ([] ++ (cs ++ r)) = (.skipped, 0) := by
      rcases hc with rfl | rfl <;> rfl
    exact lexemes_cons_append hgap ▸ .gap (ih hcs)

end Token

namespace Layout

open Text Token Comment

variable {layout : Layout}

/-- A line of a comment is written in its gutter. -/
theorem toList_gutter (indent : String) (line : List Char) :
    (indent ++ (if (String.ofList line).isEmpty then " *\n"
      else " * " ++ String.ofList line ++ "\n")).toList = gutter indent.toList line ++ ['\n'] := by
  cases line with
  | nil =>
    rw [if_pos (by decide), String.toList_append, gutter, List.append_assoc]
    rfl
  | cons c line =>
    have hne : ¬(String.ofList (c :: line)).isEmpty = true := by
      rw [String.isEmpty_iff, ← String.toList_inj, String.toList_ofList]
      exact List.cons_ne_nil c line
    simp only [if_neg hne, String.toList_append, String.toList_ofList, gutter, List.append_assoc]
    rfl

/-- A comment in a gutter is a comment that nothing closes early, and that has the same text when it
is cleaned. -/
theorem exists_body {indent doc : String} (hindent : IsIndent indent.toList) (h : IsDoc doc) :
    ∃ body, closeFree ('*' :: body ++ ['*']) ∧ cleanDoc body = some doc ∧
      ("/**\n" ++ String.join ((Text.lines doc).map fun line =>
        indent ++ (if line.isEmpty then " *\n" else " * " ++ line ++ "\n")) ++ indent ++
        " */").toList = '/' :: '*' :: '*' :: (body ++ ['*', '/']) := by
  obtain ⟨lines, hdoc, hclean, hfirst, hlast⟩ := h.lines
  have hlines : Text.lines doc = lines.map String.ofList := by
    rw [Text.lines, hdoc, lines_joinWith hclean hlast]
  have hbody : (String.join ((lines.map String.ofList).map fun line =>
      indent ++ (if line.isEmpty then " *\n" else " * " ++ line ++ "\n"))).toList =
      lines.flatMap fun line => gutter indent.toList line ++ ['\n'] := by
    rw [String.toList_join, List.map_map, List.flatMap_map]
    exact congrArg (fun f => lines.flatMap f) (funext (toList_gutter indent))
  refine ⟨written indent.toList lines, closeFree_written hindent hclean, ?_, ?_⟩
  · rw [hdoc]
    exact cleanDoc_written hindent hclean hfirst hlast
  · rw [hlines]
    simp only [String.toList_append, hbody, written]
    simp

/-- One comment. -/
theorem writes_doc {indent doc : String} (hindent : IsIndent indent.toList) (h : IsDoc doc) :
    Writes free (indent ++ "/**\n" ++
      String.join ((Text.lines doc).map fun line =>
        indent ++ (if line.isEmpty then " *\n" else " * " ++ line ++ "\n")) ++
      indent ++ " */\n") [.doc doc] := by
  obtain ⟨body, hfree, hclean, htext⟩ := exists_body hindent h
  have hcomment : Writes free ("/**\n" ++ String.join ((Text.lines doc).map fun line =>
      indent ++ (if line.isEmpty then " *\n" else " * " ++ line ++ "\n")) ++ indent ++
      " */") [.doc doc] := by
    intro r qs _ hqs
    rw [htext, List.cons_append, lexemes_cons_append (lexeme_doc hfree hclean r)]
    exact .doc hqs
  have hall := (Writes.indent hindent).append_free (hcomment.append_free Writes.newline)
  simp only [String.append_assoc] at hall ⊢
  exact hall

/-- At every depth the indentation is blanks if the unit is. -/
theorem isIndent_indent (h : IsIndent layout.unit.toList) (depth : Nat) :
    IsIndent (layout.indent depth).toList := by
  intro c hc
  rw [Layout.indent, String.toList_join, List.mem_flatMap] at hc
  obtain ⟨unit, hunit, hc⟩ := hc
  rw [List.eq_of_mem_replicate hunit] at hc
  exact h c hc

/-- A block of comments is read back as the comments. -/
theorem writes_docBlock (hindent : IsIndent layout.unit.toList) (depth : Nat) {docs : Docs}
    (h : ∀ doc ∈ docs, IsDoc doc) :
    Writes free (layout.docBlock depth docs) (docs.map .doc) := by
  rw [docBlock]
  induction docs with
  | nil => exact .empty
  | cons doc docs ih =>
    obtain ⟨hdoc, hdocs⟩ := List.forall_mem_cons.1 h
    rw [List.map_cons, String.join_cons]
    exact (writes_doc (isIndent_indent hindent depth) hdoc).append_free (ih hdocs)

end Layout

end DeclLayer
