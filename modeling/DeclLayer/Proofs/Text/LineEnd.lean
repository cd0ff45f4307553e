import DeclLayer.Proofs.Text.Cutting
import DeclLayer.Text.LineEnd

/-!
# Uniform line ends

A text with uniform line ends is its clean lines, each with the line end behind it
(`LineEnd.normalize_eq`). A clean line has no line feed in it and no space at its end, and the
last one is not empty (`LineEnd.AreClean`). Reading such lines back gives the same lines if they end
with `\r\n`. If they end with `\n` alone, a line that itself ends with a carriage return is taken to
end with `\r\n`, and loses it. So normalizing again changes nothing exactly if there is no such line
(`LineEnd.normalize_normalize_iff`).
-/

namespace DeclLayer.LineEnd

open Text

/-! ## Clean lines -/

/-- Cleaning takes spaces and at most one carriage return off the end of a line. -/
theorem exists_cleanLine_append (line : List Char) :
    ∃ taken, line = cleanLine line ++ taken ∧ ∀ c ∈ taken, c = ' ' ∨ c = '\r' := by
  have hspaces (cs : List Char) :
      ∃ taken, cs = dropBackWhile (· == ' ') cs ++ taken ∧ ∀ c ∈ taken, c = ' ' := by
    obtain ⟨taken, htaken, hall⟩ := exists_dropBackWhile_append (· == ' ') cs
    exact ⟨taken, htaken, fun c hc => beq_iff_eq.1 (hall c hc)⟩
  rw [cleanLine]
  split
  · next hreturn =>
    obtain ⟨before, rfl⟩ := List.getLast?_eq_some_iff.1 hreturn
    obtain ⟨taken, htaken, hall⟩ := hspaces before
    refine ⟨taken ++ ['\r'], ?_, fun c hc => ?_⟩
    · rw [List.dropLast_concat, ← List.append_assoc, ← htaken]
    · rw [List.mem_append, List.mem_singleton] at hc
      exact hc.imp_left (hall c)
  · obtain ⟨taken, htaken, hall⟩ := hspaces line
    exact ⟨taken, htaken, fun c hc => .inl (hall c hc)⟩

/-- A clean line ends with no space. -/
theorem getLast?_cleanLine (line : List Char) : (cleanLine line).getLast? ≠ some ' ' := by
  intro hspace
  have hlast := getLast?_dropBackWhile (p := (· == ' ')) _ ' ' hspace
  exact absurd hlast (by decide)

/-- A line without a space at its end is cleaned already, unless it ends with a carriage return. -/
theorem cleanLine_eq_self_iff {line : List Char} (hspace : line.getLast? ≠ some ' ') :
    cleanLine line = line ↔ line.getLast? ≠ some '\r' := by
  rw [cleanLine]
  split
  · next hreturn =>
    refine ⟨fun hself => ?_, fun hne => absurd hreturn hne⟩
    have hlength := (dropBackWhile_initial (p := (· == ' ')) line.dropLast).length_le
    have hne : line ≠ [] := by
      rintro rfl
      cases hreturn
    have hpos := List.length_pos_iff.2 hne
    rw [hself, List.length_dropLast] at hlength
    omega
  · next hreturn =>
    refine ⟨fun _ => hreturn, fun _ => dropBackWhile_eq_self fun c hc => ?_⟩
    exact beq_eq_false_iff_ne.2 fun hc' => hspace (hc' ▸ hc)

/-- A carriage return behind a line without a space at its end is taken off again. -/
theorem cleanLine_concat {line : List Char} (hspace : line.getLast? ≠ some ' ') :
    cleanLine (line ++ ['\r']) = line := by
  rw [cleanLine, if_pos List.getLast?_concat, List.dropLast_concat]
  exact dropBackWhile_eq_self fun c hc => beq_eq_false_iff_ne.2 fun hc' => hspace (hc' ▸ hc)

/-- Lines as they are written. -/
structure AreClean (lines : List (List Char)) : Prop where
  oneLine : ∀ line ∈ lines, '\n' ∉ line
  trimmed : ∀ line ∈ lines, line.getLast? ≠ some ' '
  last : ∀ line ∈ lines.getLast?, line ≠ []

/-- The clean lines of a text are clean, and the last of them is not empty. -/
theorem areClean_cleanLines (s : String) : AreClean (cleanLines s) := by
  have hmem {line : List Char} (h : line ∈ cleanLines s) :
      ∃ raw ∈ splitAt '\n' s.toList, cleanLine raw = line :=
    List.mem_map.1 ((dropBackWhile_initial _).subset h)
  refine ⟨fun line hline => ?_, fun line hline => ?_, fun line hline => ?_⟩
  · obtain ⟨raw, hraw, rfl⟩ := hmem hline
    obtain ⟨taken, htaken, -⟩ := exists_cleanLine_append raw
    intro hfeed
    refine not_mem_of_mem_splitAt hraw ?_
    rw [htaken]
    exact List.mem_append_left taken hfeed
  · obtain ⟨raw, -, rfl⟩ := hmem hline
    exact getLast?_cleanLine raw
  · have hlast := getLast?_dropBackWhile (p := List.isEmpty) _ line hline
    rintro rfl
    cases hlast

/-- Clean lines have no empty ones at the end to drop. -/
theorem AreClean.dropBackWhile_isEmpty {lines : List (List Char)} (h : AreClean lines) :
    dropBackWhile List.isEmpty lines = lines :=
  dropBackWhile_eq_self fun line hline => List.isEmpty_eq_false_iff.2 (h.last line hline)

/-! ## Written lines -/

/-- Lines with a line end behind each. -/
def written (lineEnd : LineEnd) (lines : List (List Char)) : List Char :=
  lines.flatMap (· ++ lineEnd.text.toList)

@[simp] theorem written_nil (lineEnd : LineEnd) : lineEnd.written [] = [] := rfl

@[simp] theorem written_cons (lineEnd : LineEnd) (line : List Char) (lines : List (List Char)) :
    lineEnd.written (line :: lines) = line ++ (lineEnd.text.toList ++ lineEnd.written lines) := by
  rw [written, List.flatMap_cons, List.append_assoc]
  rfl

/-- A text is normalized by writing its clean lines. -/
theorem normalize_eq (lineEnd : LineEnd) (s : String) :
    lineEnd.normalize s = String.ofList (lineEnd.written (cleanLines s)) := by
  rw [← String.toList_inj, String.toList_ofList, normalize, String.toList_join, List.flatMap_map,
    written]
  simp only [String.toList_append, String.toList_ofList]

/-- Lines written with line feeds are split at them again, with an empty part at the end. -/
theorem splitAt_written_lf {lines : List (List Char)} (h : ∀ line ∈ lines, '\n' ∉ line) :
    splitAt '\n' (lf.written lines) = lines ++ [[]] := by
  have hjoin : lf.written lines = ['\n'].intercalate (lines ++ [[]]) := by
    induction lines with
    | nil => rfl
    | cons line lines ih =>
      rw [List.cons_append, List.intercalate_cons_of_ne_nil (List.append_ne_nil_of_right_ne_nil _
        (List.cons_ne_nil _ _)), ← ih fun line hline => h line (List.mem_cons_of_mem _ hline)]
      rfl
  rw [hjoin, splitAt_intercalate '\n' (List.append_ne_nil_of_right_ne_nil _ (List.cons_ne_nil _ _))]
  intro piece hpiece
  rcases List.mem_append.1 hpiece with hpiece | hpiece
  · exact h piece hpiece
  · rw [List.mem_singleton.1 hpiece]
    exact List.not_mem_nil

/-- Lines that end with a line feed are cleaned again when they are read back. -/
theorem cleanLines_written_lf {lines : List (List Char)} (h : ∀ line ∈ lines, '\n' ∉ line) :
    cleanLines (String.ofList (lf.written lines)) =
      dropBackWhile List.isEmpty (lines.map cleanLine) := by
  rw [cleanLines, String.toList_ofList, splitAt_written_lf h, List.map_append, List.map_singleton]
  exact dropBackWhile_concat rfl _

/-- Clean lines that end with a carriage return and a line feed are read back. -/
theorem cleanLines_written_crlf {lines : List (List Char)} (h : AreClean lines) :
    cleanLines (String.ofList (crlf.written lines)) = lines := by
  have hlf : crlf.written lines = lf.written (lines.map (· ++ ['\r'])) := by
    rw [written, written, List.flatMap_map]
    simp only [List.append_assoc]
    rfl
  have hfeed : ∀ line ∈ lines.map (· ++ ['\r']), '\n' ∉ line := by
    rw [List.forall_mem_map]
    intro line hline
    rw [List.mem_append, not_or]
    exact ⟨h.oneLine line hline, by decide⟩
  have hself : (lines.map (· ++ ['\r'])).map cleanLine = lines := by
    rw [List.map_map]
    exact (List.map_congr_left fun line hline => cleanLine_concat (h.trimmed line hline)).trans
      (List.map_id lines)
  rw [hlf, cleanLines_written_lf hfeed, hself, h.dropBackWhile_isEmpty]

/-! ## Normalizing again -/

/-- Lines that end with a line feed are written again as they are exactly if none of them ends with
a carriage return. -/
theorem rewritten_lf_iff {lines : List (List Char)} (h : AreClean lines) :
    lf.written (cleanLines (String.ofList (lf.written lines))) = lf.written lines ↔
      ∀ line ∈ lines, line.getLast? ≠ some '\r' := by
  have hself : (∀ line ∈ lines, cleanLine line = line) ↔
      ∀ line ∈ lines, line.getLast? ≠ some '\r' :=
    forall₂_congr fun line hline => cleanLine_eq_self_iff (h.trimmed line hline)
  rw [← hself]
  constructor
  · intro hsame
    have hfeed := (areClean_cleanLines (String.ofList (lf.written lines))).oneLine
    have hlines : cleanLines (String.ofList (lf.written lines)) = lines := by
      have hsplit := congrArg (splitAt '\n') hsame
      rw [splitAt_written_lf hfeed, splitAt_written_lf h.oneLine] at hsplit
      exact List.append_cancel_right hsplit
    -- No line is lost at the end, so each line is what it is cleaned to.
    have hkept : dropBackWhile List.isEmpty (lines.map cleanLine) = lines := by
      rwa [cleanLines_written_lf h.oneLine] at hlines
    have hmap : lines = lines.map cleanLine := by
      have hinitial := dropBackWhile_initial (p := List.isEmpty) (lines.map cleanLine)
      rw [hkept] at hinitial
      exact hinitial.eq_of_length (List.length_map cleanLine).symm
    exact List.map_inj_left.1 (hmap.symm.trans (List.map_id lines).symm)
  · intro hclean
    have hmap : lines.map cleanLine = lines :=
      (List.map_congr_left hclean).trans (List.map_id lines)
    rw [cleanLines_written_lf h.oneLine, hmap, h.dropBackWhile_isEmpty]

/-- Normalizing a second time changes nothing exactly if the lines end with a carriage return and a
line feed, or no line that is written ends with a carriage return. -/
theorem normalize_normalize_iff (lineEnd : LineEnd) (s : String) :
    lineEnd.normalize (lineEnd.normalize s) = lineEnd.normalize s ↔
      lineEnd = crlf ∨ ∀ line ∈ cleanLines s, line.getLast? ≠ some '\r' := by
  have hclean := areClean_cleanLines s
  rw [normalize_eq lineEnd (lineEnd.normalize s), normalize_eq lineEnd s, String.ofList_inj]
  cases lineEnd with
  | crlf => simp only [cleanLines_written_crlf hclean, true_or]
  | lf => rw [rewritten_lf_iff hclean, or_iff_right (nofun : ¬lf = crlf)]

/-- A line that ends with two carriage returns loses one of them each time. -/
theorem normalize_twice_returns :
    lf.normalize "a\r\r\n" = "a\r\n" ∧
      lf.normalize (lf.normalize "a\r\r\n") ≠ lf.normalize "a\r\r\n" := by
  refine ⟨by decide, fun hsame => ?_⟩
  rcases (normalize_normalize_iff lf "a\r\r\n").1 hsame with hcrlf | hlines
  · cases hcrlf
  · exact hlines ['a', '\r'] (by decide) rfl

end DeclLayer.LineEnd
