import DeclLayer.Proofs.Token.BlockComment
import DeclLayer.Render.Item

/-!
# Documentation in front of a text

A block of documentation is white space and comments, so it has no tokens of its own. Each comment
in it has the text that it was printed from (`Layout.exists_body`), and leaves it to the first
token of what follows (`Layout.precedes_docBlock`). If that token has no documentation yet, the
block is all that it has (`Layout.scan_docBlock`).
-/

namespace DeclLayer

open Text Token Comment

/-- A line is indented with blanks in every style. -/
theorem Style.isIndent_unit (style : Style) : IsIndent style.unit.toList := by
  intro c hc
  rw [Style.unit] at hc
  split at hc
  · exact .inr (List.mem_singleton.1 hc)
  · rw [String.toList_ofList] at hc
    exact .inl (List.eq_of_mem_replicate hc)

namespace Layout

/-- One comment, from its indentation to the end of its last line. -/
theorem precedes_doc {indent doc : String} (hindent : IsIndent indent.toList) (h : IsDoc doc) :
    Precedes (indent ++ "/**\n" ++
      String.join ((Text.lines doc).map fun line =>
        indent ++ (if line.isEmpty then " *\n" else " * " ++ line ++ "\n")) ++
      indent ++ " */\n") [doc] := by
  obtain ⟨body, hfree, hclean, htext⟩ := exists_body hindent h
  have hcomment : "/**\n" ++ String.join ((Text.lines doc).map fun line =>
      indent ++ (if line.isEmpty then " *\n" else " * " ++ line ++ "\n")) ++ indent ++ " */" =
      blockText (String.ofList ('*' :: body)) := by
    rw [← String.toList_inj, htext]
    simp [blockText]
  have hdocs : blockDocs (String.ofList ('*' :: body)).toList = [doc] := by
    rw [String.toList_ofList, blockDocs, hclean]
    rfl
  have hblock : Precedes (blockText (String.ofList ('*' :: body))) [doc] := by
    rw [← hdocs]
    refine .block ?_
    rw [String.toList_ofList]
    exact hfree.infix (List.prefix_append _ _).isInfix
  have hfeed : Precedes "\n" [] := .blank (List.forall_mem_singleton.2 isBlank_newline)
  have hall := (Precedes.blank hindent.isBlank).append (hblock.append hfeed)
  rw [← hcomment] at hall
  simp only [String.append_assoc] at hall ⊢
  exact hall

/-- A block of documentation comments documents the first token after it. -/
theorem precedes_docBlock {layout : Layout} (hindent : IsIndent layout.unit.toList) (depth : Nat)
    {docs : Docs} (h : ∀ doc ∈ docs, IsDoc doc) :
    Precedes (layout.docBlock depth docs) docs := by
  have hjoin := Precedes.join fun doc hdoc =>
    precedes_doc (isIndent_indent hindent depth) (h doc hdoc)
  rw [List.flatMap_singleton'] at hjoin
  exact hjoin

/-- Documentation that is printed in front of a text is read back as that of its first token, if
this one has none of its own. The other tokens are only moved. -/
theorem scan_docBlock (style : Style) (base depth : Nat) {docs : Docs}
    (hdocs : ∀ doc ∈ docs, IsDoc doc) {rest : String} {first : Token} {later : List Token}
    (hrest : scan rest = first :: later) (hnone : first.docs = []) :
    scan ((⟨style.unit, base⟩ : Layout).docBlock depth docs ++ rest) =
      { shift (utf8Size ((⟨style.unit, base⟩ : Layout).docBlock depth docs).toList) first with
        docs := docs } ::
      later.map (shift (utf8Size ((⟨style.unit, base⟩ : Layout).docBlock depth docs).toList)) := by
  have hblock : Precedes (docBlock ⟨style.unit, base⟩ depth docs) docs :=
    precedes_docBlock style.isIndent_unit depth hdocs
  have hdocs : docs ++ first.docs = docs := by rw [hnone, List.append_nil]
  rw [hblock rest, hrest, List.map_cons, addDocs, shift, hdocs]

/-- Lines that begin with a star, a tab or a slash, an empty one, and a carriage return inside
another, in front of a text with more documentation. -/
theorem scan_docBlock_tabs :
    (∀ doc ∈ ["* é\n\n\ta\rb", "/ c"], IsDoc doc) ∧
      scan "x /** D */ y" =
        [⟨.ident "x", 0, 1, []⟩, ⟨.ident "y", 11, 12, ["D"]⟩, ⟨.eof, 12, 12, []⟩] ∧
      scan ((⟨Style.unit ⟨4, true⟩, 0⟩ : Layout).docBlock 2 ["* é\n\n\ta\rb", "/ c"] ++
        "x /** D */ y") =
        [⟨.ident "x", 58, 59, ["* é\n\n\ta\rb", "/ c"]⟩, ⟨.ident "y", 69, 70, ["D"]⟩,
          ⟨.eof, 70, 70, []⟩] := by
  have hdocs : ∀ doc ∈ ["* é\n\n\ta\rb", "/ c"], IsDoc doc := by
    refine List.forall_mem_cons.2 ⟨?_, List.forall_mem_singleton.2 ?_⟩
    · exact ⟨" * * é\n*\n * \ta\rb\n".toList, by decide +kernel, by decide +kernel⟩
    · exact ⟨" / c ".toList, by decide +kernel, by decide +kernel⟩
  have hrest : scan "x /** D */ y" =
      [⟨.ident "x", 0, 1, []⟩, ⟨.ident "y", 11, 12, ["D"]⟩, ⟨.eof, 12, 12, []⟩] := by
    decide +kernel
  refine ⟨hdocs, hrest, (scan_docBlock ⟨4, true⟩ 0 2 hdocs hrest rfl).trans ?_⟩
  decide +kernel

end Layout

end DeclLayer
