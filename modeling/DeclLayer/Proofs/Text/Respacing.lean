import DeclLayer.Proofs.Text.LineEnd

/-!
# Texts that differ at their line ends

Normalizing line ends changes a text only before its line feeds and at its end: white space there is
taken away or added (`Text.Respaced`, `LineEnd.respaced_normalize`). Readers of such texts meet the
same visible characters in the same order. What a reader takes from one text it takes from the
other, and the rests are again such texts: a run of visible characters (`Respaced.takeWhile_eq`), a
stretch without a line feed that ends with a visible character (`Respaced.append_inv`), the white
space in front (`Respaced.trimFront`), and a line, up to white space at its end (`Respaced.line`).
-/

namespace DeclLayer.Text

/-- White space only. -/
def Blank (cs : List Char) : Prop :=
  ∀ c ∈ cs, isBlank c = true

/-- Texts that differ only in the white space before line feeds and at the end. -/
inductive Respaced : List Char → List Char → Prop where
  | stop {cs ds : List Char} : Blank cs → Blank ds → Respaced cs ds
  | char (c : Char) {cs ds : List Char} : Respaced cs ds → Respaced (c :: cs) (c :: ds)
  | lineEnd {bs es cs ds : List Char} : Blank bs → '\n' ∉ bs → Blank es → '\n' ∉ es →
    Respaced cs ds → Respaced (bs ++ '\n' :: cs) (es ++ '\n' :: ds)

/-- An empty text is white space. -/
theorem blank_nil : Blank [] := fun _ hc => absurd hc List.not_mem_nil

/-- A line feed is white space. -/
theorem isBlank_newline : isBlank '\n' = true := by decide

/-- White space in front of a text is trimmed with the white space that the text begins with. -/
theorem trimFront_blank_append {bs : List Char} (h : Blank bs) (cs : List Char) :
    trimFront (bs ++ cs) = trimFront cs :=
  List.dropWhile_append_of_pos h

/-- White space is trimmed from the front to nothing. -/
theorem trimFront_blank {bs : List Char} (h : Blank bs) : trimFront bs = [] := by
  have hnil := trimFront_blank_append h []
  rwa [List.append_nil] at hnil

/-- Nothing but white space is gone from the front, so what is left begins with no white space. -/
theorem trimFront_eq_nil {cs : List Char} (h : ∀ c ∈ (trimFront cs).head?, isBlank c = true) :
    trimFront cs = [] := by
  have hhead := List.head?_dropWhile_not isBlank cs
  rw [← trimFront] at hhead
  cases hrest : trimFront cs with
  | nil => rfl
  | cons c rest =>
    rw [hrest] at h hhead
    exact absurd (h c rfl) (Bool.eq_false_iff.1 hhead)

/-- White space behind a text is trimmed with the white space that the text ends with. -/
theorem trimBack_append_blank (cs : List Char) {bs : List Char} (h : Blank bs) :
    trimBack (cs ++ bs) = trimBack cs :=
  dropBackWhile_append h cs

/-- White space is trimmed from the back to nothing. -/
theorem trimBack_blank {bs : List Char} (h : Blank bs) : trimBack bs = [] :=
  trimBack_append_blank [] h

/-- Texts that are the same but for white space at their ends are so with a character in front. -/
theorem trimBack_cons_congr (c : Char) {cs ds : List Char} (h : trimBack cs = trimBack ds) :
    trimBack (c :: cs) = trimBack (c :: ds) := by
  have hdrop : dropBackWhile isBlank cs = dropBackWhile isBlank ds := h
  rw [trimBack, trimBack, dropBackWhile, dropBackWhile, hdrop]

/-- A line ends at a line feed or at the end of the text. -/
theorem dropWhile_newline (cs : List Char) :
    cs.dropWhile (· != '\n') = [] ∨ ∃ rest, cs.dropWhile (· != '\n') = '\n' :: rest := by
  have hhead := List.head?_dropWhile_not (· != '\n') cs
  cases hrest : cs.dropWhile (· != '\n') with
  | nil => exact .inl rfl
  | cons c rest =>
    rw [hrest] at hhead
    exact .inr ⟨rest, congrArg (· :: rest) (bne_eq_false_iff_eq.1 hhead)⟩

/-- A line with its line feed and what follows it. -/
theorem takeWhile_line {line : List Char} (hfeed : '\n' ∉ line) (rest : List Char) :
    (line ++ '\n' :: rest).takeWhile (· != '\n') = line ∧
      (line ++ '\n' :: rest).dropWhile (· != '\n') = '\n' :: rest := by
  have hne : ∀ c ∈ line, (c != '\n') = true := fun c hc =>
    bne_iff_ne.2 fun heq => hfeed (heq ▸ hc)
  rw [List.takeWhile_append_of_pos hne, List.dropWhile_append_of_pos hne,
    List.takeWhile_cons_of_neg (by decide), List.dropWhile_cons_of_neg (by decide), List.append_nil]
  exact ⟨rfl, rfl⟩

/-- Trimming the front twice is trimming it once. -/
theorem trimFront_trimFront (cs : List Char) : trimFront (trimFront cs) = trimFront cs := by
  induction cs with
  | nil => rfl
  | cons c cs ih =>
    cases hc : isBlank c with
    | false => rw [trimFront, trimFront, List.dropWhile_cons_of_neg (Bool.eq_false_iff.1 hc),
        List.dropWhile_cons_of_neg (Bool.eq_false_iff.1 hc)]
    | true =>
      rw [trimFront, trimFront, List.dropWhile_cons_of_pos hc]
      exact ih

/-- A text that is not white space only has a first visible character. -/
theorem exists_visible {cs : List Char} (h : ¬cs.all isBlank = true) :
    ∃ bs v vs, cs = bs ++ v :: vs ∧ Blank bs ∧ isBlank v = false := by
  have hcs : cs.takeWhile isBlank ++ trimFront cs = cs := List.takeWhile_append_dropWhile
  have hbs : Blank (cs.takeWhile isBlank) := List.all_eq_true.1 List.all_takeWhile
  have hhead := List.head?_dropWhile_not isBlank cs
  rw [← trimFront] at hhead
  cases htrim : trimFront cs with
  | nil =>
    rw [htrim, List.append_nil] at hcs
    rw [hcs] at hbs
    exact absurd (List.all_eq_true.2 hbs) h
  | cons v vs =>
    rw [htrim] at hcs hhead
    exact ⟨_, v, vs, hcs.symm, hbs, hhead⟩

namespace Respaced

variable {cs ds : List Char}

/-- Texts that differ at their line ends only may be exchanged. -/
theorem symm (h : Respaced cs ds) : Respaced ds cs := by
  induction h with
  | stop hcs hds => exact .stop hds hcs
  | char c _ ih => exact .char c ih
  | lineEnd hbs hbs' hes hes' _ ih => exact .lineEnd hes hes' hbs hbs' ih

/-- The same text may stand in front of both. -/
theorem append (xs : List Char) (h : Respaced cs ds) : Respaced (xs ++ cs) (xs ++ ds) := by
  induction xs with
  | nil => exact h
  | cons x xs ih => exact .char x ih

/-! ## The next character -/

/-- Either both texts begin with the same visible character, or neither begins with one. -/
theorem cases_head (h : Respaced cs ds) :
    ((∀ c ∈ cs.head?, isBlank c = true) ∧ ∀ d ∈ ds.head?, isBlank d = true) ∨
      ∃ c cs' ds', isBlank c = false ∧ cs = c :: cs' ∧ ds = c :: ds' ∧ Respaced cs' ds' := by
  have hfeed {bs cs : List Char} (hbs : Blank bs) :
      ∀ c ∈ (bs ++ '\n' :: cs).head?, isBlank c = true := by
    intro c hc
    cases bs with
    | nil =>
      cases hc
      exact isBlank_newline
    | cons b bs => exact hbs c (List.mem_of_mem_head? hc)
  cases h with
  | stop hcs hds =>
    exact .inl ⟨fun c hc => hcs c (List.mem_of_mem_head? hc),
      fun d hd => hds d (List.mem_of_mem_head? hd)⟩
  | @char c cs ds h =>
    cases hc : isBlank c with
    | false => exact .inr ⟨c, cs, ds, hc, rfl, rfl, h⟩
    | true =>
      refine .inl ⟨fun d hd => ?_, fun d hd => ?_⟩
      · cases hd
        exact hc
      · cases hd
        exact hc
  | lineEnd hbs _ hes _ _ => exact .inl ⟨hfeed hbs, hfeed hes⟩

/-- A visible character in front of one text is in front of the other. -/
theorem cons_inv {c : Char} (hc : isBlank c = false) (h : Respaced (c :: cs) ds) :
    ∃ ds', ds = c :: ds' ∧ Respaced cs ds' := by
  rcases h.cases_head with ⟨hblank, -⟩ | ⟨d, cs', ds', -, hcs, rfl, hrest⟩
  · rw [hblank c rfl] at hc
    cases hc
  · obtain ⟨rfl, rfl⟩ := List.cons.inj hcs
    exact ⟨ds', rfl, hrest⟩

/-- The first characters belong to a class of visible ones both or neither. -/
theorem head_any {p : Char → Bool} (hp : ∀ c, p c = true → isBlank c = false)
    (h : Respaced cs ds) : cs.head?.any p = ds.head?.any p := by
  have hnone {cs : List Char} (hcs : ∀ c ∈ cs.head?, isBlank c = true) :
      cs.head?.any p = false := by
    cases cs with
    | nil => rfl
    | cons c cs => exact Bool.eq_false_iff.2 fun hpc =>
        Bool.false_ne_true ((hp c hpc).symm.trans (hcs c rfl))
  rcases h.cases_head with ⟨hcs, hds⟩ | ⟨c, cs', ds', -, rfl, rfl, -⟩
  · rw [hnone hcs, hnone hds]
  · rfl

/-- Both texts begin with a given visible character, or neither does. -/
theorem cases_char {c : Char} (hc : isBlank c = false) (h : Respaced cs ds) :
    (∃ cs' ds', cs = c :: cs' ∧ ds = c :: ds' ∧ Respaced cs' ds') ∨
      ((∀ rest, cs ≠ c :: rest) ∧ ∀ rest, ds ≠ c :: rest) := by
  by_cases hcs : ∃ cs', cs = c :: cs'
  · obtain ⟨cs', rfl⟩ := hcs
    obtain ⟨ds', rfl, hrest⟩ := h.cons_inv hc
    exact .inl ⟨cs', ds', rfl, rfl, hrest⟩
  · refine .inr ⟨fun rest heq => hcs ⟨rest, heq⟩, ?_⟩
    rintro rest rfl
    obtain ⟨cs', rfl, -⟩ := h.symm.cons_inv hc
    exact hcs ⟨cs', rfl⟩

/-- The two texts begin with the same visible character, if one of them begins with one. -/
theorem head?_eq_iff {c : Char} (hc : isBlank c = false) (h : Respaced cs ds) :
    cs.head? = some c ↔ ds.head? = some c := by
  rcases h.cases_char hc with ⟨cs', ds', rfl, rfl, -⟩ | ⟨hcs, hds⟩
  · exact iff_of_true rfl rfl
  · rw [List.head?_eq_some_iff, List.head?_eq_some_iff]
    exact iff_of_false (fun ⟨rest, heq⟩ => hcs rest heq) fun ⟨rest, heq⟩ => hds rest heq

/-! ## Runs of characters -/

/-- A stretch without a line feed that ends with a visible character is the same in both texts. -/
theorem append_inv {xs : List Char} {q : Char} (hxs : '\n' ∉ xs) (hq : isBlank q = false)
    (h : Respaced (xs ++ q :: cs) ds) : ∃ ds', ds = xs ++ q :: ds' ∧ Respaced cs ds' := by
  -- White space up to a line feed is no such stretch.
  have hno (bs rest : List Char) (hbs : Blank bs) :
      ∀ ys, '\n' ∉ ys → bs ++ '\n' :: rest ≠ ys ++ q :: cs := by
    induction bs with
    | nil =>
      intro ys hys heq
      cases ys with
      | nil =>
        obtain ⟨rfl, -⟩ := List.cons.inj heq
        exact absurd hq (by decide)
      | cons y ys =>
        obtain ⟨rfl, -⟩ := List.cons.inj heq
        exact hys List.mem_cons_self
    | cons b bs ih =>
      intro ys hys heq
      obtain ⟨hb, hbs⟩ := List.forall_mem_cons.1 hbs
      cases ys with
      | nil =>
        obtain ⟨rfl, -⟩ := List.cons.inj heq
        rw [hb] at hq
        cases hq
      | cons y ys =>
        obtain ⟨-, heq⟩ := List.cons.inj heq
        exact ih hbs ys (fun hmem => hys (List.mem_cons_of_mem y hmem)) heq
  induction xs generalizing ds with
  | nil => exact h.cons_inv hq
  | cons x xs ih =>
    generalize hall : x :: xs ++ q :: cs = all at h
    cases h with
    | stop hblank _ =>
      have hmem : q ∈ all := by
        rw [← hall]
        exact List.mem_append_right _ List.mem_cons_self
      rw [hblank q hmem] at hq
      cases hq
    | @char c cs' ds' h =>
      obtain ⟨rfl, rfl⟩ := List.cons.inj hall
      obtain ⟨rest, rfl, hrest⟩ := ih (fun hmem => hxs (List.mem_cons_of_mem x hmem)) h
      exact ⟨rest, rfl, hrest⟩
    | @lineEnd bs _ cs' _ hbs => exact absurd hall.symm (hno bs cs' hbs (x :: xs) hxs)

/-- The characters of a class of visible ones in front are the same in both texts. -/
theorem takeWhile_eq {p : Char → Bool} (hp : ∀ c, p c = true → isBlank c = false)
    (h : Respaced cs ds) :
    cs.takeWhile p = ds.takeWhile p ∧ Respaced (cs.dropWhile p) (ds.dropWhile p) := by
  have hblank {cs : List Char} (hcs : ∀ c ∈ cs.head?, isBlank c = true) :
      cs.takeWhile p = [] ∧ cs.dropWhile p = cs := by
    cases cs with
    | nil => exact ⟨rfl, rfl⟩
    | cons c cs =>
      have hc : ¬p c = true := fun hpc => Bool.false_ne_true ((hp c hpc).symm.trans (hcs c rfl))
      exact ⟨List.takeWhile_cons_of_neg hc, List.dropWhile_cons_of_neg hc⟩
  induction cs generalizing ds with
  | nil =>
    rcases h.cases_head with ⟨hcs, hds⟩ | ⟨c, cs', ds', -, hcs, -, -⟩
    · rw [(hblank hds).1, (hblank hds).2]
      exact ⟨rfl, h⟩
    · cases hcs
  | cons c cs ih =>
    rcases h.cases_head with ⟨hcs, hds⟩ | ⟨d, cs', ds', -, hcs, rfl, hrest⟩
    · rw [(hblank hcs).1, (hblank hcs).2, (hblank hds).1, (hblank hds).2]
      exact ⟨rfl, h⟩
    · obtain ⟨rfl, rfl⟩ := List.cons.inj hcs
      cases hc : p c with
      | false =>
        have hneg : ¬p c = true := Bool.eq_false_iff.1 hc
        simp only [List.takeWhile_cons_of_neg hneg, List.dropWhile_cons_of_neg hneg, true_and]
        exact h
      | true =>
        simp only [List.takeWhile_cons_of_pos hc, List.dropWhile_cons_of_pos hc]
        obtain ⟨htake, hdrop⟩ := ih hrest
        exact ⟨congrArg (c :: ·) htake, hdrop⟩

/-! ## White space and lines -/

/-- Without the white space in front the texts still differ at their line ends only. -/
theorem trimFront (h : Respaced cs ds) : Respaced (Text.trimFront cs) (Text.trimFront ds) := by
  have hfeed {bs : List Char} (hbs : Blank bs) (cs : List Char) :
      Text.trimFront (bs ++ '\n' :: cs) = Text.trimFront cs := by
    rw [trimFront_blank_append hbs]
    exact List.dropWhile_cons_of_pos isBlank_newline
  induction h with
  | stop hcs hds =>
    rw [trimFront_blank hcs, trimFront_blank hds]
    exact .stop blank_nil blank_nil
  | @char c cs ds h ih =>
    cases hc : isBlank c with
    | false =>
      have hneg : ¬isBlank c = true := Bool.eq_false_iff.1 hc
      rw [Text.trimFront, Text.trimFront, List.dropWhile_cons_of_neg hneg,
        List.dropWhile_cons_of_neg hneg]
      exact .char c h
    | true =>
      rw [Text.trimFront, Text.trimFront, List.dropWhile_cons_of_pos hc,
        List.dropWhile_cons_of_pos hc]
      exact ih
  | lineEnd hbs _ hes _ _ ih =>
    rw [hfeed hbs, hfeed hes]
    exact ih

/-- The first lines differ in the white space at their ends, and what follows them is again alike.
-/
theorem line (h : Respaced cs ds) :
    trimBack (cs.takeWhile (· != '\n')) = trimBack (ds.takeWhile (· != '\n')) ∧
      Respaced (cs.dropWhile (· != '\n')) (ds.dropWhile (· != '\n')) := by
  have hblank {cs : List Char} (hcs : Blank cs) :
      trimBack (cs.takeWhile (· != '\n')) = [] ∧ Blank (cs.dropWhile (· != '\n')) :=
    ⟨trimBack_blank fun c hc => hcs c ((List.takeWhile_sublist _).subset hc),
      fun c hc => hcs c ((List.dropWhile_sublist _).subset hc)⟩
  induction h with
  | stop hcs hds =>
    rw [(hblank hcs).1, (hblank hds).1]
    exact ⟨rfl, .stop (hblank hcs).2 (hblank hds).2⟩
  | @char c cs ds h ih =>
    by_cases hc : c = '\n'
    · subst hc
      exact ⟨rfl, .char '\n' h⟩
    · have hne : (c != '\n') = true := bne_iff_ne.2 hc
      obtain ⟨hline, hrest⟩ := ih
      rw [List.takeWhile_cons, List.takeWhile_cons, List.dropWhile_cons, List.dropWhile_cons, hne]
      exact ⟨trimBack_cons_congr c hline, hrest⟩
  | lineEnd hbs hbs' hes hes' h _ =>
    rw [(takeWhile_line hbs' _).1, (takeWhile_line hbs' _).2, (takeWhile_line hes' _).1,
      (takeWhile_line hes' _).2, trimBack_blank hbs,
      trimBack_blank hes]
    exact ⟨rfl, .char '\n' h⟩

/-- A text that differs from an empty one is white space. -/
theorem nil_inv (h : Respaced cs []) : Blank cs := by
  generalize hds : ([] : List Char) = ds at h
  cases h with
  | stop hcs _ => exact hcs
  | char => cases hds
  | @lineEnd _ es => cases es <;> cases hds

/-- Behind line feeds the texts are alike. -/
theorem newline_inv (h : Respaced ('\n' :: cs) ('\n' :: ds)) : Respaced cs ds := by
  generalize hcs : '\n' :: cs = all at h
  generalize hds : '\n' :: ds = all' at h
  cases h with
  | stop hblank hblank' =>
    subst hcs hds
    exact .stop (List.forall_mem_cons.1 hblank).2 (List.forall_mem_cons.1 hblank').2
  | char c h =>
    obtain ⟨rfl, rfl⟩ := List.cons.inj hcs
    obtain ⟨-, rfl⟩ := List.cons.inj hds
    exact h
  | @lineEnd bs es cs' ds' _ hbs _ hes h =>
    cases bs with
    | cons b bs =>
      obtain ⟨rfl, -⟩ := List.cons.inj hcs
      exact absurd List.mem_cons_self hbs
    | nil =>
      cases es with
      | cons e es =>
        obtain ⟨rfl, -⟩ := List.cons.inj hds
        exact absurd List.mem_cons_self hes
      | nil =>
        obtain ⟨-, rfl⟩ := List.cons.inj hcs
        obtain ⟨-, rfl⟩ := List.cons.inj hds
        exact h

/-- Behind the first lines the texts are alike. -/
theorem behind_line (h : Respaced cs ds) :
    Respaced (cs.dropWhile (· != '\n')).tail (ds.dropWhile (· != '\n')).tail := by
  -- Where one text has no second line, the other has only white space.
  have hblank {cs : List Char} (h : Respaced ('\n' :: cs) []) : Respaced cs [] :=
    .stop (List.forall_mem_cons.1 h.nil_inv).2 blank_nil
  have hrest := h.line.2
  rcases dropWhile_newline cs with hcs | ⟨cs', hcs⟩ <;>
    rcases dropWhile_newline ds with hds | ⟨ds', hds⟩ <;> rw [hcs, hds] at hrest ⊢
  · exact hrest
  · exact (hblank hrest.symm).symm
  · exact hblank hrest
  · exact hrest.newline_inv

end Respaced

end DeclLayer.Text

namespace DeclLayer.LineEnd

open Text

/-- Cleaning takes white space off the end of a line. -/
theorem exists_cleanLine_append_blank (line : List Char) :
    ∃ taken, line = cleanLine line ++ taken ∧ Blank taken := by
  obtain ⟨taken, htaken, hall⟩ := exists_cleanLine_append line
  refine ⟨taken, htaken, fun c hc => ?_⟩
  rcases hall c hc with rfl | rfl <;> decide

/-- A line end is a line feed with white space before it. -/
theorem exists_text_eq (lineEnd : LineEnd) :
    ∃ before, lineEnd.text.toList = before ++ ['\n'] ∧ Blank before ∧ '\n' ∉ before := by
  cases lineEnd with
  | lf => exact ⟨[], rfl, blank_nil, List.not_mem_nil⟩
  | crlf =>
    refine ⟨['\r'], rfl, fun c hc => ?_, by decide⟩
    rw [List.mem_singleton.1 hc]
    decide

/-- Writing a cleaned line changes it at its end only. -/
theorem respaced_line (lineEnd : LineEnd) {line more : List Char} {kept : List (List Char)}
    (hline : '\n' ∉ line) (hmore : Respaced more (lineEnd.written kept)) :
    Respaced (line ++ '\n' :: more) (lineEnd.written (cleanLine line :: kept)) := by
  obtain ⟨taken, htaken, hblank⟩ := exists_cleanLine_append_blank line
  obtain ⟨before, hbefore, hblank', hfeed'⟩ := exists_text_eq lineEnd
  have hfeed : '\n' ∉ taken := by
    rw [htaken] at hline
    exact fun hmem => hline (List.mem_append_right _ hmem)
  have hend := (Respaced.lineEnd hblank hfeed hblank' hfeed' hmore).append (cleanLine line)
  rw [← List.append_assoc, ← htaken] at hend
  rwa [written_cons, hbefore, List.append_assoc, List.singleton_append]

/-- A text and its cleaned lines, written with either line end, differ at their line ends only. -/
theorem respaced_written (lineEnd : LineEnd) {lines : List (List Char)} (hne : lines ≠ [])
    (h : ∀ line ∈ lines, '\n' ∉ line) :
    Respaced (['\n'].intercalate lines)
      (lineEnd.written (dropBackWhile List.isEmpty (lines.map cleanLine))) := by
  have hblank {line : List Char} (hempty : (cleanLine line).isEmpty = true) : Blank line := by
    obtain ⟨taken, htaken, hblank⟩ := exists_cleanLine_append_blank line
    rw [List.isEmpty_iff.1 hempty, List.nil_append] at htaken
    exact htaken ▸ hblank
  induction lines with
  | nil => exact absurd rfl hne
  | cons line lines ih =>
    obtain ⟨hline, hlines⟩ := List.forall_mem_cons.1 h
    rw [List.map_cons, dropBackWhile]
    cases lines with
    | nil =>
      -- the last line has no line feed behind it
      rw [List.intercalate_singleton, List.map_nil, dropBackWhile]
      dsimp only
      split
      · next hempty => exact .stop (hblank hempty) blank_nil
      · obtain ⟨taken, htaken, htaken'⟩ := exists_cleanLine_append_blank line
        obtain ⟨before, hbefore, hbefore', -⟩ := exists_text_eq lineEnd
        have hend : Blank (before ++ ['\n']) := by
          intro c hc
          rcases List.mem_append.1 hc with hc | hc
          · exact hbefore' c hc
          · rw [List.mem_singleton.1 hc]
            exact isBlank_newline
        have hstop := (Respaced.stop htaken' hend).append (cleanLine line)
        rw [← htaken] at hstop
        rwa [written_cons, written_nil, List.append_nil, hbefore]
    | cons next rest =>
      have hmore := ih (List.cons_ne_nil _ _) hlines
      have hkept := respaced_line lineEnd hline hmore
      rw [List.intercalate_cons_cons, List.append_assoc, List.singleton_append]
      split
      · next hnone =>
        rw [hnone] at hmore hkept
        split
        · next hempty =>
          -- nothing is left of this line and of those behind it
          refine .stop (fun c hc => ?_) blank_nil
          rcases List.mem_append.1 hc with hc | hc
          · exact hblank hempty c hc
          · rcases List.mem_cons.1 hc with rfl | hc
            · exact isBlank_newline
            · exact hmore.nil_inv c hc
        · exact hkept
      · next y ys hsome =>
        rw [hsome] at hkept
        exact hkept

/-- Normalizing a text changes it at its line ends only. -/
theorem respaced_normalize (lineEnd : LineEnd) (s : String) :
    Respaced s.toList (lineEnd.normalize s).toList := by
  have hlines := respaced_written lineEnd (splitAt_ne_nil '\n' s.toList)
    fun line hline => not_mem_of_mem_splitAt hline
  rw [intercalate_splitAt] at hlines
  rwa [normalize_eq, String.toList_ofList, cleanLines]

end DeclLayer.LineEnd
