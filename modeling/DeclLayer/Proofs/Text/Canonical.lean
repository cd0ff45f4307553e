import DeclLayer.Proofs.Text.Respacing

/-!
# Normalizing is canonical

The lines of a text are the pieces between its line feeds, each without the carriage return that
belongs to its line end; the piece behind the last line feed is a line unless it is empty
(`Text.exists_pieces`). So the lines that are written when a text is normalized are its lines
without the spaces at their ends, up to the last one of which something is left
(`LineEnd.cleanLines_eq`). That holds of texts in which each carriage return belongs to a line end
(`Text.ReturnsPaired`); elsewhere a second normalization can take off another one.

Written with line ends of either kind, such lines are the lines of the text again
(`LineEnd.linesOf_written`). Normalizing is therefore canonical (`LineEnd.normalize_canonical`): the
line ends that a text had before are forgotten, and nothing else is.
-/

namespace DeclLayer

namespace Text

/-! ## Lines and pieces -/

/-- A line without the spaces at its end. -/
def trimSpaces (line : List Char) : List Char :=
  dropBackWhile (· == ' ') line

/-- A line without the carriage return that belongs to its line end. -/
def dropReturn (line : List Char) : List Char :=
  if line.getLast? = some '\r' then line.dropLast else line

/-- What follows the last line feed is a line, unless it is empty. -/
def lastLine (last : List Char) : List (List Char) :=
  if last = [] then [] else [last]

/-- A line up to its line feed, with the text behind it. -/
theorem linesOf_line {line : List Char} (h : '\n' ∉ line) (rest : List Char) :
    linesOf (line ++ '\n' :: rest) = dropReturn line :: linesOf rest := by
  rw [dropReturn]
  split
  · next hreturn =>
    obtain ⟨before, rfl⟩ := List.getLast?_eq_some_iff.1 hreturn
    have hbefore : '\n' ∉ before := fun hmem => h (List.mem_append_left _ hmem)
    rw [List.dropLast_concat, List.append_assoc, List.singleton_append,
      linesOf_append_return hbefore]
  · next hreturn => exact linesOf_append_newline h hreturn rest

/-- The lines of pieces with line feeds between them. -/
theorem linesOf_intercalate {pieces : List (List Char)} {last : List Char}
    (h : ∀ piece ∈ pieces, '\n' ∉ piece) (hlast : '\n' ∉ last) :
    linesOf (['\n'].intercalate (pieces ++ [last])) = pieces.map dropReturn ++ lastLine last := by
  induction pieces with
  | nil =>
    rw [List.nil_append, List.intercalate_singleton, List.map_nil, List.nil_append, lastLine]
    split
    · next hnil => rw [hnil, linesOf]
    · next hne => exact linesOf_last hlast hne
  | cons piece pieces ih =>
    obtain ⟨hpiece, hpieces⟩ := List.forall_mem_cons.1 h
    rw [List.cons_append, List.intercalate_cons_of_ne_nil
      (List.append_ne_nil_of_right_ne_nil _ (List.cons_ne_nil _ _)), List.append_assoc,
      List.singleton_append, linesOf_line hpiece, ih hpieces, List.map_cons, List.cons_append]

/-- Lines without line ends of their own are read back from between line feeds. -/
theorem linesOf_intercalate_self {lines : List (List Char)} (hfeed : ∀ line ∈ lines, '\n' ∉ line)
    (hreturn : ∀ line ∈ lines, line.getLast? ≠ some '\r')
    (hlast : ∀ line ∈ lines.getLast?, line ≠ []) : linesOf (['\n'].intercalate lines) = lines := by
  rcases List.eq_nil_or_concat lines with rfl | ⟨front, last, rfl⟩
  · rw [List.intercalate_nil, linesOf]
  · rw [List.concat_eq_append] at hfeed hreturn hlast ⊢
    rw [List.forall_mem_append, List.forall_mem_singleton] at hfeed hreturn
    have hfront : front.map dropReturn = front :=
      (List.map_congr_left fun line hline => if_neg (hreturn.1 line hline)).trans (List.map_id _)
    rw [linesOf_intercalate hfeed.1 hfeed.2, hfront, lastLine,
      if_neg (hlast last List.getLast?_concat)]

/-- The pieces between the line feeds of a text, and its lines. -/
theorem exists_pieces (cs : List Char) :
    ∃ pieces last, splitAt '\n' cs = pieces ++ [last] ∧
      linesOf cs = pieces.map dropReturn ++ lastLine last := by
  obtain ⟨pieces, last, hsplit⟩ :=
    (List.eq_nil_or_concat (splitAt '\n' cs)).resolve_left (splitAt_ne_nil '\n' cs)
  rw [List.concat_eq_append] at hsplit
  have hfeed : ∀ piece ∈ pieces ++ [last], '\n' ∉ piece := fun piece hpiece =>
    not_mem_of_mem_splitAt (hsplit ▸ hpiece)
  rw [List.forall_mem_append, List.forall_mem_singleton] at hfeed
  refine ⟨pieces, last, hsplit, ?_⟩
  rw [← intercalate_splitAt '\n' cs, hsplit, linesOf_intercalate hfeed.1 hfeed.2]

/-- Nothing is kept if all elements are dropped. -/
theorem dropBackWhile_eq_nil_iff {α : Type} {p : α → Bool} {xs : List α} :
    dropBackWhile p xs = [] ↔ ∀ x ∈ xs, p x = true := by
  constructor
  · intro h
    obtain ⟨taken, htaken, hall⟩ := exists_dropBackWhile_append p xs
    rw [h, List.nil_append] at htaken
    exact htaken ▸ hall
  · exact fun h => dropBackWhile_append h []

/-- What ends with an element that is not taken off is kept at the front of what is not. -/
theorem prefix_dropBackWhile {α : Type} {p : α → Bool} {xs ys : List α} (h : xs <+: ys)
    (hlast : ∀ x ∈ xs.getLast?, p x = false) : xs <+: dropBackWhile p ys := by
  obtain ⟨taken, htaken, hall⟩ := exists_dropBackWhile_append p ys
  have hinitial : dropBackWhile p ys <+: ys := dropBackWhile_initial ys
  rcases List.prefix_or_prefix_of_prefix h hinitial with hkept | ⟨more, hmore⟩
  · exact hkept
  · rcases List.eq_nil_or_concat more with rfl | ⟨front, x, rfl⟩
    · rw [List.append_nil] at hmore
      exact hmore ▸ List.prefix_rfl
    · -- The last element would be one of those that are taken off.
      rw [htaken, ← hmore, List.prefix_append_right_inj, List.concat_eq_append] at h
      rw [← hmore, List.concat_eq_append, ← List.append_assoc, List.getLast?_concat] at hlast
      have hx := hall x (h.subset (List.mem_append_right _ (List.mem_singleton.2 rfl)))
      exact absurd hx (Bool.eq_false_iff.1 (hlast x rfl))

/-! ## Carriage returns -/

/-- Every carriage return is directly followed by a line feed. -/
def ReturnsPaired (cs : List Char) : Prop :=
  ∀ i < cs.length, cs[i]? = some '\r' → cs[i + 1]? = some '\n'

instance (cs : List Char) : Decidable (ReturnsPaired cs) :=
  inferInstanceAs (Decidable (∀ i < cs.length, cs[i]? = some '\r' → cs[i + 1]? = some '\n'))

namespace ReturnsPaired

variable {c : Char} {cs : List Char}

/-- Paired returns are paired behind the first character. -/
theorem tail (h : ReturnsPaired (c :: cs)) : ReturnsPaired cs :=
  fun i hi => h (i + 1) (Nat.succ_lt_succ hi)

/-- Behind a paired return a line feed follows. -/
theorem head?_eq (h : ReturnsPaired ('\r' :: cs)) : cs.head? = some '\n' := by
  rw [List.head?_eq_getElem?]
  exact h 0 (Nat.succ_pos _) rfl

/-- A carriage return before a line feed belongs to the line end. -/
theorem not_mem_line (h : ReturnsPaired cs) : ∀ line ∈ linesOf cs, '\r' ∉ line := by
  induction cs using linesOf.induct with
  | case1 => exact List.forall_mem_nil _
  | case2 cs ih =>
    rw [linesOf]
    exact List.forall_mem_cons.2 ⟨List.not_mem_nil, ih h.tail⟩
  | case3 cs ih =>
    rw [linesOf]
    exact List.forall_mem_cons.2 ⟨List.not_mem_nil, ih h.tail.tail⟩
  | case4 c cs hfeed hreturn hlines ih =>
    rw [linesOf.eq_4 _ _ hfeed hreturn, hlines, List.forall_mem_singleton, List.mem_singleton]
    rintro rfl
    obtain ⟨rest, rfl⟩ := List.head?_eq_some_iff.1 h.head?_eq
    exact hreturn rest rfl rfl
  | case5 c cs hfeed hreturn line lines hlines ih =>
    rw [linesOf.eq_4 _ _ hfeed hreturn, hlines]
    have hrest := hlines ▸ ih h.tail
    obtain ⟨hline, hrest⟩ := List.forall_mem_cons.1 hrest
    refine List.forall_mem_cons.2 ⟨?_, hrest⟩
    rw [List.mem_cons, not_or]
    refine ⟨?_, hline⟩
    rintro rfl
    obtain ⟨rest, rfl⟩ := List.head?_eq_some_iff.1 h.head?_eq
    exact hreturn rest rfl rfl

end ReturnsPaired

end Text

namespace LineEnd

open Text

/-! ## The lines that are written -/

/-- Cleaning a line drops a return and then the spaces in front of it. -/
theorem cleanLine_eq (line : List Char) : cleanLine line = trimSpaces (dropReturn line) := rfl

/-- The pieces of a text are cleaned to its lines without the spaces at their ends. The piece behind
the last line feed has no line end, but can have a carriage return. -/
theorem exists_cleanPieces (cs : List Char) :
    ∃ lines last, linesOf cs = lines ++ lastLine last ∧
      (splitAt '\n' cs).map cleanLine = lines.map trimSpaces ++ [cleanLine last] := by
  obtain ⟨pieces, last, hsplit, hlines⟩ := exists_pieces cs
  refine ⟨pieces.map dropReturn, last, hlines, ?_⟩
  rw [hsplit, List.map_append, List.map_singleton, List.map_map]
  rfl

/-- The lines that are written are the lines of the text without the spaces at their ends, and
without the empty ones behind the last line of which something is left. -/
theorem cleanLines_eq {s : String} (h : ∀ line ∈ linesOf s.toList, line.getLast? ≠ some '\r') :
    cleanLines s = dropBackWhile List.isEmpty ((linesOf s.toList).map trimSpaces) := by
  obtain ⟨lines, last, hlines, hpieces⟩ := exists_cleanPieces s.toList
  rw [cleanLines, hpieces]
  rw [hlines] at h ⊢
  rw [lastLine] at h ⊢
  split
  · next hnil =>
    rw [hnil, List.append_nil]
    exact dropBackWhile_concat rfl _
  · next hne =>
    rw [if_neg hne] at h
    have hlast := h last (List.mem_append_right _ (List.mem_singleton.2 rfl))
    rw [List.map_append, List.map_singleton, cleanLine_eq, dropReturn, if_neg hlast]

/-- Clean lines have no spaces to trim. -/
theorem AreClean.map_trimSpaces {lines : List (List Char)} (h : AreClean lines) :
    lines.map trimSpaces = lines := by
  refine (List.map_congr_left fun line hline => ?_).trans (List.map_id lines)
  exact dropBackWhile_eq_self fun c hc => beq_eq_false_iff_ne.2 fun hspace =>
    h.trimmed line hline (hspace ▸ hc)

/-- Clean lines at the front of a text are written first. -/
theorem prefix_cleanLines {s : String} {lines : List (List Char)} (h : lines <+: linesOf s.toList)
    (hclean : AreClean lines) (hreturn : ∀ line ∈ lines, line.getLast? ≠ some '\r') :
    lines <+: cleanLines s := by
  refine prefix_dropBackWhile ?_ fun line hline =>
    List.isEmpty_eq_false_iff.2 (hclean.last line hline)
  obtain ⟨others, last, hlines, hpieces⟩ := exists_cleanPieces s.toList
  have hself := hclean.map_trimSpaces
  rw [hpieces]
  rw [hlines, lastLine] at h
  split at h
  · rw [List.append_nil] at h
    exact hself ▸ (h.map trimSpaces).trans (List.prefix_append _ _)
  · rcases List.prefix_concat_iff.1 h with rfl | h
    · have hend := hreturn last (List.mem_append_right _ (List.mem_singleton.2 rfl))
      rw [List.map_append, List.map_singleton] at hself
      have hkept : others.map trimSpaces ++ [cleanLine last] = others ++ [last] := by
        rw [cleanLine_eq, dropReturn, if_neg hend, hself]
      exact hkept ▸ List.prefix_rfl
    · exact hself ▸ (h.map trimSpaces).trans (List.prefix_append _ _)

/-- Writing one line more adds the line and its end. -/
theorem written_concat (lineEnd : LineEnd) (lines : List (List Char)) (line : List Char) :
    lineEnd.written (lines ++ [line]) = lineEnd.written lines ++ (line ++ lineEnd.text.toList) := by
  rw [written, List.flatMap_append, List.flatMap_singleton, written]

/-- Only no lines at all are written as an empty text. -/
theorem written_eq_nil_iff {lineEnd : LineEnd} {lines : List (List Char)} :
    lineEnd.written lines = [] ↔ lines = [] := by
  cases lines with
  | nil => exact iff_of_true rfl rfl
  | cons line lines =>
    refine iff_of_false (fun h => ?_) (List.cons_ne_nil _ _)
    rw [written_cons, List.append_eq_nil_iff, List.append_eq_nil_iff] at h
    cases lineEnd <;> cases h.2.1

/-- Lines are read back from between line ends of either kind. -/
theorem linesOf_written (lineEnd : LineEnd) {lines : List (List Char)}
    (hfeed : ∀ line ∈ lines, '\n' ∉ line) (hreturn : ∀ line ∈ lines, line.getLast? ≠ some '\r')
    (rest : List Char) : linesOf (lineEnd.written lines ++ rest) = lines ++ linesOf rest := by
  induction lines with
  | nil => rfl
  | cons line lines ih =>
    obtain ⟨hline, hlines⟩ := List.forall_mem_cons.1 hfeed
    obtain ⟨hline', hlines'⟩ := List.forall_mem_cons.1 hreturn
    have hrest := congrArg (line :: ·) (ih hlines hlines')
    rw [written_cons, List.append_assoc, List.append_assoc]
    cases lineEnd with
    | lf => exact (linesOf_append_newline hline hline' _).trans hrest
    | crlf => exact (linesOf_append_return hline _).trans hrest

/-- Clean lines without carriage returns are what is written of the text that is made of them. -/
theorem cleanLines_written (lineEnd : LineEnd) {lines : List (List Char)} (h : AreClean lines)
    (hreturn : ∀ line ∈ lines, line.getLast? ≠ some '\r') :
    cleanLines (String.ofList (lineEnd.written lines)) = lines := by
  have hlines : linesOf (String.ofList (lineEnd.written lines)).toList = lines := by
    have hread := linesOf_written lineEnd h.oneLine hreturn []
    rw [List.append_nil, linesOf, List.append_nil] at hread
    rw [String.toList_ofList, hread]
  rw [cleanLines_eq (by rwa [hlines]), hlines, h.map_trimSpaces, h.dropBackWhile_isEmpty]

/-! ## Where line ends stand -/

/-- The text ends with one line end, behind a line that is not empty. -/
def EndsOnce (lineEnd : LineEnd) (cs : List Char) : Prop :=
  ∃ before line, cs = before ++ (line ++ lineEnd.text.toList) ∧ line ≠ [] ∧
    (∀ c ∈ line, c ≠ '\n' ∧ c ≠ '\r') ∧ (before = [] ∨ lineEnd.text.toList <:+ before)

/-- Every line feed is the end of a line end, and no carriage return stands in front of that. -/
def EndsLines (lineEnd : LineEnd) (cs : List Char) : Prop :=
  ∀ before after, cs = before ++ '\n' :: after →
    ∃ line, before ++ ['\n'] = line ++ lineEnd.text.toList ∧ line.getLast? ≠ some '\r'

variable {lineEnd : LineEnd} {lines : List (List Char)}

/-- Written clean lines end with one line end. -/
theorem endsOnce_written (hne : lines ≠ []) (h : AreClean lines)
    (hreturn : ∀ line ∈ lines, '\r' ∉ line) : lineEnd.EndsOnce (lineEnd.written lines) := by
  obtain ⟨front, line, hlines⟩ := (List.eq_nil_or_concat lines).resolve_left hne
  rw [List.concat_eq_append] at hlines
  subst hlines
  have hmem : line ∈ front ++ [line] := List.mem_append_right _ (List.mem_singleton.2 rfl)
  refine ⟨lineEnd.written front, line, written_concat lineEnd front line,
    h.last line List.getLast?_concat, fun c hc => ⟨?_, ?_⟩, ?_⟩
  · rintro rfl
    exact h.oneLine line hmem hc
  · rintro rfl
    exact hreturn line hmem hc
  · rcases List.eq_nil_or_concat front with rfl | ⟨front, last, rfl⟩
    · exact .inl rfl
    · rw [List.concat_eq_append, written_concat, ← List.append_assoc]
      exact .inr (List.suffix_append _ _)

/-- A line feed that stands behind a line is not in the line. -/
theorem exists_of_append_newline {line rest before after : List Char} (h : '\n' ∉ line)
    (heq : line ++ rest = before ++ '\n' :: after) :
    ∃ front, before = line ++ front ∧ rest = front ++ '\n' :: after := by
  rcases List.append_eq_append_iff.1 heq with hbehind | ⟨back, hline, hback⟩
  · exact hbehind
  · cases back with
    | nil => exact ⟨[], by rw [hline, List.append_nil, List.append_nil], hback.symm⟩
    | cons c back =>
      obtain ⟨rfl, -⟩ := List.cons.inj hback
      exact absurd (hline ▸ List.mem_append_right before List.mem_cons_self) h

/-- Written lines have the line end at every line feed, if the lines hold no line feed and end with
no return. -/
theorem endsLines_written (hfeed : ∀ line ∈ lines, '\n' ∉ line)
    (hreturn : ∀ line ∈ lines, line.getLast? ≠ some '\r') :
    lineEnd.EndsLines (lineEnd.written lines) := by
  obtain ⟨mark, hmark, -, hmarkFeed⟩ := exists_text_eq lineEnd
  induction lines with
  | nil => exact fun before after h => absurd h.symm (List.append_ne_nil_of_right_ne_nil _ nofun)
  | cons line lines ih =>
    obtain ⟨hline, hlines⟩ := List.forall_mem_cons.1 hfeed
    obtain ⟨hline', hlines'⟩ := List.forall_mem_cons.1 hreturn
    intro before after h
    rw [written_cons, hmark, List.append_assoc] at h
    obtain ⟨front, rfl, hfront⟩ := exists_of_append_newline hline h
    obtain ⟨back, rfl, hback⟩ := exists_of_append_newline hmarkFeed hfront
    cases back with
    | nil =>
      -- the line feed of this line
      exact ⟨line, by rw [hmark, List.append_nil, List.append_assoc], hline'⟩
    | cons c back =>
      -- a line feed behind it
      obtain ⟨rfl, hrest⟩ := List.cons.inj hback
      obtain ⟨later, hlater, hlast⟩ := ih hlines hlines' back after hrest
      refine ⟨line ++ lineEnd.text.toList ++ later, ?_, ?_⟩
      · rw [List.append_assoc _ later, ← hlater, hmark]
        simp only [List.append_assoc, List.cons_append, List.nil_append]
      · rw [List.getLast?_append, hmark, ← List.append_assoc, List.getLast?_concat]
        cases hend : later.getLast? with
        | none => decide
        | some d => rwa [← hend, Option.or_of_isSome (hend ▸ rfl)]

/-! ## Canonical texts -/

section

variable {s : String} (h : ReturnsPaired s.toList)

include h

/-- In a text with paired returns the returns vanish with the line ends, so only spaces are trimmed.
-/
theorem cleanLines_eq_of_paired :
    cleanLines s = dropBackWhile List.isEmpty ((linesOf s.toList).map trimSpaces) :=
  cleanLines_eq fun line hline hreturn =>
    h.not_mem_line line hline (List.mem_of_getLast? hreturn)

/-- In a text with paired returns no clean line holds a return. -/
theorem return_not_mem_cleanLines : ∀ line ∈ cleanLines s, '\r' ∉ line := by
  rw [cleanLines_eq_of_paired h]
  intro line hline hreturn
  obtain ⟨raw, hraw, rfl⟩ := List.mem_map.1 ((dropBackWhile_initial _).subset hline)
  exact h.not_mem_line raw hraw ((dropBackWhile_initial _).subset hreturn)

/-- In a text with paired returns no clean line ends with a return. -/
theorem getLast?_cleanLines : ∀ line ∈ cleanLines s, line.getLast? ≠ some '\r' :=
  fun line hline hreturn =>
    return_not_mem_cleanLines h line hline (List.mem_of_getLast? hreturn)

/-- The lines of a normalized text are those that were written. -/
theorem linesOf_normalize (lineEnd : LineEnd) :
    linesOf (lineEnd.normalize s).toList = cleanLines s := by
  have hread := linesOf_written lineEnd (areClean_cleanLines s).oneLine (getLast?_cleanLines h) []
  rw [List.append_nil, linesOf, List.append_nil] at hread
  rw [normalize_eq, String.toList_ofList, hread]

/-- Nothing is written of a text whose lines hold spaces only. -/
theorem cleanLines_eq_nil_iff :
    cleanLines s = [] ↔ ∀ line ∈ linesOf s.toList, ∀ c ∈ line, c = ' ' := by
  rw [cleanLines_eq_of_paired h, dropBackWhile_eq_nil_iff, List.forall_mem_map]
  refine forall₂_congr fun line _ => ?_
  rw [List.isEmpty_iff, trimSpaces, dropBackWhile_eq_nil_iff]
  exact forall₂_congr fun c _ => beq_iff_eq

end

/-- Normalizing is canonical on texts in which each carriage return belongs to a line end. A second
normalization forgets the first. Nothing is left of a text exactly if its lines hold spaces only.
Otherwise it ends with one line end, behind a line that is not empty. All its line feeds belong to
line ends of the given kind, no line ends with a space, and the lines are those of the text without
the spaces at their ends and without the empty lines at the end of the text. -/
theorem normalize_canonical {s : String} (h : ReturnsPaired s.toList) (a b : LineEnd) :
    b.normalize (a.normalize s) = b.normalize s ∧
    (a.normalize s = "" ↔ ∀ line ∈ linesOf s.toList, ∀ c ∈ line, c = ' ') ∧
    (a.normalize s ≠ "" → a.EndsOnce (a.normalize s).toList) ∧
    a.EndsLines (a.normalize s).toList ∧
    (∀ line ∈ linesOf (a.normalize s).toList, line.getLast? ≠ some ' ') ∧
    linesOf (a.normalize s).toList =
      dropBackWhile List.isEmpty ((linesOf s.toList).map trimSpaces) := by
  have hclean := areClean_cleanLines s
  have hreturn := getLast?_cleanLines h
  have hnil : a.normalize s = "" ↔ cleanLines s = [] := by
    rw [normalize_eq, ← String.toList_inj, String.toList_ofList]
    exact written_eq_nil_iff
  have hwritten : (a.normalize s).toList = a.written (cleanLines s) := by
    rw [normalize_eq, String.toList_ofList]
  refine ⟨?_, hnil.trans (cleanLines_eq_nil_iff h), fun hne => ?_, ?_, ?_, ?_⟩
  · rw [normalize_eq b (a.normalize s), normalize_eq a s, cleanLines_written a hclean hreturn,
      ← normalize_eq]
  · rw [hwritten]
    exact endsOnce_written (mt hnil.2 hne) hclean (return_not_mem_cleanLines h)
  · rw [hwritten]
    exact endsLines_written hclean.oneLine hreturn
  · rw [linesOf_normalize h]
    exact hclean.trimmed
  · rw [linesOf_normalize h, cleanLines_eq_of_paired h]

/-- A text with line ends of both kinds, a line of spaces and no line end behind its last line. -/
theorem normalize_canonical_mixed :
    ReturnsPaired "a \r\n  \nb\r\n\r\n ".toList ∧
      crlf.normalize (lf.normalize "a \r\n  \nb\r\n\r\n ") = "a\r\n\r\nb\r\n" ∧
      linesOf (lf.normalize "a \r\n  \nb\r\n\r\n ").toList = [['a'], [], ['b']] := by
  have hpaired : ReturnsPaired "a \r\n  \nb\r\n\r\n ".toList := by decide
  obtain ⟨hagain, -, -, -, -, hlines⟩ := normalize_canonical hpaired lf crlf
  exact ⟨hpaired, hagain.trans (by decide), hlines.trans (by decide)⟩

end LineEnd

end DeclLayer
