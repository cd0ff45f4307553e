import DeclLayer.Proofs.Text.Respacing
import DeclLayer.Token.Comment

/-!
# Comments in texts that differ at their line ends

White space at the end of a line does not count for what a comment says. A directive is the same
without it (`Comment.directive?_congr`). The bodies of block comments, and what follows them, again
differ at their line ends only (`Text.Respaced.block`), and the cleaned text of a documentation
comment is the same (`Text.Respaced.cleanDoc_eq`).
-/

namespace DeclLayer

/-! ## Searching in front of white space -/

namespace Text

variable {pattern bs : List Char}

/-- White space behind a text adds no beginning that holds none. -/
theorem after?_append_blank (hpattern : pattern.any isBlank = false) (hbs : Blank bs)
    (cs : List Char) : after? pattern (cs ++ bs) = (after? pattern cs).map (· ++ bs) := by
  induction pattern generalizing cs with
  | nil => rw [after?, after?, Option.map_some]
  | cons p pattern ih =>
    rw [List.any_cons, Bool.or_eq_false_iff] at hpattern
    obtain ⟨hp, hpattern⟩ := hpattern
    cases cs with
    | nil =>
      rw [List.nil_append, after?, Option.map_none]
      cases bs with
      | nil => rfl
      | cons b bs =>
        have hne : p ≠ b := by
          rintro rfl
          rw [hbs p List.mem_cons_self] at hp
          cases hp
        rw [after?, if_neg hne]
    | cons c cs =>
      rw [List.cons_append, after?, after?, ih hpattern]
      split <;> rfl

/-- White space behind a text adds no occurrence. -/
theorem afterFirst?_append_blank (hne : pattern ≠ []) (hpattern : pattern.any isBlank = false)
    (hbs : Blank bs) (cs : List Char) :
    afterFirst? pattern (cs ++ bs) = (afterFirst? pattern cs).map (· ++ bs) := by
  have hnone : ∀ bs, Blank bs → after? pattern bs = none := by
    intro bs hbs
    have hafter := after?_append_blank hpattern hbs []
    cases pattern with
    | nil => exact absurd rfl hne
    | cons p pattern => exact hafter
  induction cs with
  | nil =>
    rw [List.nil_append, afterFirst?, hnone [] blank_nil, Option.map_none]
    induction bs with
    | nil => exact hnone [] hbs
    | cons b bs ih =>
      rw [afterFirst?, hnone _ hbs]
      exact ih (List.forall_mem_cons.1 hbs).2
  | cons c cs ih =>
    rw [List.cons_append, afterFirst?, afterFirst?, ← List.cons_append,
      after?_append_blank hpattern hbs, ih]
    cases after? pattern (c :: cs) <;> rfl

/-- White space behind a text holds no visible character, so what stands in front of the first one
searched for is the same. -/
theorem before?_append_blank {stop : Char} (hstop : isBlank stop = false) (hbs : Blank bs)
    (cs : List Char) : before? stop (cs ++ bs) = before? stop cs := by
  have hbs' : bs.contains stop = false := by
    rw [Bool.eq_false_iff, ne_eq, List.contains_iff_mem]
    intro hmem
    rw [hbs stop hmem] at hstop
    cases hstop
  rw [before?, before?, List.contains_append, hbs', Bool.or_false]
  split
  · next hmem =>
    obtain ⟨before, behind, rfl⟩ := List.append_of_mem (List.contains_iff_mem.1 hmem)
    have hclosed (r : List Char) : (before ++ stop :: behind ++ r).takeWhile (· != stop) =
        before.takeWhile (· != stop) := by
      rw [List.append_assoc, List.takeWhile_append, List.cons_append,
        List.takeWhile_cons_of_neg (by simp), List.append_nil]
      split
      · next hlength => exact ((List.takeWhile_prefix _).eq_of_length hlength).symm
      · rfl
    have hnil := hclosed []
    rw [List.append_nil] at hnil
    rw [hclosed bs, hnil]
  · rfl

/-- White space behind a text stays there unless the text is white space. -/
theorem trimFront_append_blank (hbs : Blank bs) (cs : List Char) :
    (trimFront cs = [] ∧ trimFront (cs ++ bs) = []) ∨
      ∃ c rest, trimFront cs = c :: rest ∧ trimFront (cs ++ bs) = c :: (rest ++ bs) := by
  have happend : trimFront (cs ++ bs) =
      if (trimFront cs).isEmpty then trimFront bs else trimFront cs ++ bs := List.dropWhile_append
  rw [happend]
  cases htrim : trimFront cs with
  | nil => exact .inl ⟨rfl, trimFront_blank hbs⟩
  | cons c rest => exact .inr ⟨c, rest, rfl, rfl⟩

end Text

namespace Comment

open Text

/-! ## Directives -/

/-- White space behind a line does not change the attributes in it. -/
theorem attribute?_append_blank {name : String} (hname : name.toList.any isBlank = false)
    {bs : List Char} (hbs : Blank bs) (content : List Char) :
    attribute? name (content ++ bs) = attribute? name content := by
  have hpattern : (name.toList ++ ['=', '"']).any isBlank = false := by
    rw [List.any_append, hname]
    rfl
  rw [attribute?, attribute?,
    afterFirst?_append_blank (List.append_ne_nil_of_right_ne_nil _ (by decide)) hpattern hbs]
  cases afterFirst? (name.toList ++ ['=', '"']) content with
  | none => rfl
  | some rest =>
    dsimp only [Option.map_some]
    rw [before?_append_blank (by decide) hbs]

/-- White space behind a directive does not count. -/
theorem directive?_append_blank {bs : List Char} (hbs : Blank bs) (content : List Char) :
    directive? (content ++ bs) = directive? content := by
  have hopen : (after? "<reference".toList (trimFront (content ++ bs))).isSome =
      (after? "<reference".toList (trimFront content)).isSome := by
    rcases trimFront_append_blank hbs content with ⟨hnil, hnil'⟩ | ⟨c, rest, htrim, htrim'⟩
    · rw [hnil, hnil']
    · rw [htrim, htrim', ← List.cons_append, after?_append_blank (by decide) hbs,
        Option.isSome_map]
  rw [directive?, directive?, hopen, attribute?_append_blank (by decide) hbs,
    attribute?_append_blank (by decide) hbs]

/-- A text up to white space at its end. -/
theorem congr_of_trimBack_eq {α : Type} {f : List Char → α}
    (hf : ∀ cs bs, Blank bs → f (cs ++ bs) = f cs) {cs ds : List Char}
    (h : trimBack cs = trimBack ds) : f cs = f ds := by
  have hback (cs : List Char) : f cs = f (trimBack cs) := by
    obtain ⟨taken, htaken, hblank⟩ := exists_dropBackWhile_append isBlank cs
    have hcs := hf (trimBack cs) taken hblank
    rwa [trimBack, ← htaken] at hcs
  rw [hback cs, hback ds, h]

/-- A directive says the same without the white space at its end. -/
theorem directive?_congr {cs ds : List Char} (h : trimBack cs = trimBack ds) :
    directive? cs = directive? ds :=
  congr_of_trimBack_eq (fun cs _ hbs => directive?_append_blank hbs cs) h

/-! ## Block comments -/

/-- A character of a block comment that does not close it. -/
theorem block_cons {c : Char} {cs : List Char} (h : c = '*' → ∀ rest, cs ≠ '/' :: rest) :
    block (c :: cs) = ((block cs).1 + 1, (block cs).2) := by
  rw [block]
  exact fun rest hc => h hc rest

/-- The body of a block comment behind its opening mark. -/
def blockBody (cs : List Char) : List Char :=
  cs.take (block cs).1

/-- What follows a block comment. -/
def blockRest (cs : List Char) : List Char :=
  cs.drop ((block cs).1 + if (block cs).2 then 2 else 0)

/-- Such a character belongs to the body of the comment. -/
theorem blockBody_cons {c : Char} {cs : List Char} (h : c = '*' → ∀ rest, cs ≠ '/' :: rest) :
    blockBody (c :: cs) = c :: blockBody cs := by
  rw [blockBody, block_cons h, List.take_succ_cons, blockBody]

/-- Behind such a character the same follows the comment. -/
theorem blockRest_cons {c : Char} {cs : List Char} (h : c = '*' → ∀ rest, cs ≠ '/' :: rest) :
    blockRest (c :: cs) = blockRest cs := by
  rw [blockRest, block_cons h, Nat.add_right_comm, List.drop_succ_cons, blockRest]

/-- A text without stars does not close a comment. -/
theorem block_append_of_not_mem {bs : List Char} (h : '*' ∉ bs) (cs : List Char) :
    blockBody (bs ++ cs) = bs ++ blockBody cs ∧ blockRest (bs ++ cs) = blockRest cs := by
  induction bs with
  | nil => exact ⟨rfl, rfl⟩
  | cons b bs ih =>
    rw [List.mem_cons, not_or] at h
    have hb : b = '*' → ∀ rest, bs ++ cs ≠ '/' :: rest := fun hb => absurd hb.symm h.1
    obtain ⟨hbody, hrest⟩ := ih h.2
    rw [List.cons_append, blockBody_cons hb, blockRest_cons hb, hbody, hrest]
    exact ⟨rfl, rfl⟩

end Comment

namespace Text.Respaced

open Comment

/-- The bodies of block comments differ at their line ends only, and so does what follows them. -/
theorem block {cs ds : List Char} (h : Respaced cs ds) :
    Respaced (blockBody cs) (blockBody ds) ∧ Respaced (blockRest cs) (blockRest ds) := by
  have hstar {bs : List Char} (hbs : Blank bs) : '*' ∉ bs := fun hmem =>
    absurd (hbs '*' hmem) (by decide)
  have hblank {bs : List Char} (hbs : Blank bs) : blockBody bs = bs ∧ blockRest bs = [] := by
    have happend := block_append_of_not_mem (hstar hbs) []
    rw [List.append_nil] at happend
    exact ⟨happend.1.trans (List.append_nil bs), happend.2⟩
  have hfeed {bs : List Char} (hbs : Blank bs) (cs : List Char) :
      blockBody (bs ++ '\n' :: cs) = bs ++ '\n' :: blockBody cs ∧
        blockRest (bs ++ '\n' :: cs) = blockRest cs := by
    have happend := block_append_of_not_mem (hstar hbs) ('\n' :: cs)
    have hchar : '\n' = '*' → ∀ rest, cs ≠ '/' :: rest := fun heq => absurd heq (by decide)
    rwa [blockBody_cons hchar, blockRest_cons hchar] at happend
  induction h with
  | stop hcs hds =>
    rw [(hblank hcs).1, (hblank hcs).2, (hblank hds).1, (hblank hds).2]
    exact ⟨.stop hcs hds, .stop blank_nil blank_nil⟩
  | @char c cs ds h ih =>
    -- The comment goes on here, unless the character is a star before a slash.
    have hopen (hcs : c = '*' → ∀ rest, cs ≠ '/' :: rest)
        (hds : c = '*' → ∀ rest, ds ≠ '/' :: rest) :
        Respaced (blockBody (c :: cs)) (blockBody (c :: ds)) ∧
          Respaced (blockRest (c :: cs)) (blockRest (c :: ds)) := by
      rw [blockBody_cons hcs, blockBody_cons hds, blockRest_cons hcs, blockRest_cons hds]
      exact ⟨.char c ih.1, ih.2⟩
    by_cases hc : c = '*'
    · subst hc
      rcases h.cases_char (c := '/') (by decide) with ⟨cs', ds', rfl, rfl, hrest⟩ | ⟨hcs, hds⟩
      · exact ⟨.stop blank_nil blank_nil, hrest⟩
      · exact hopen (fun _ => hcs) fun _ => hds
    · exact hopen (fun heq => absurd heq hc) fun heq => absurd heq hc
  | @lineEnd bs es cs ds hbs hbs' hes hes' h ih =>
    rw [(hfeed hbs cs).1, (hfeed hbs cs).2, (hfeed hes ds).1, (hfeed hes ds).2]
    exact ⟨.lineEnd hbs hbs' hes hes' ih.1, ih.2⟩

end Text.Respaced

/-! ## Documentation comments -/

namespace Comment

open Text

/-- A text without one mark in front. -/
def withoutMark (mark : Char) : List Char → List Char
  | [] => []
  | c :: cs => if c = mark then cs else c :: cs

/-- Only the first character of a line is looked at for a mark. -/
theorem withoutMark_cons_append (mark c : Char) (cs bs : List Char) :
    withoutMark mark (c :: (cs ++ bs)) = withoutMark mark (c :: cs) ++ bs := by
  rw [withoutMark, withoutMark]
  split <;> rfl

/-- White space without a mark is white space. -/
theorem blank_withoutMark {bs : List Char} (hbs : Blank bs) (mark : Char) :
    Blank (withoutMark mark bs) := by
  cases bs with
  | nil => exact hbs
  | cons b bs =>
    rw [withoutMark]
    split
    · exact (List.forall_mem_cons.1 hbs).2
    · exact hbs

/-- Cleaning a line takes away the space around it, one star and one space behind the star. -/
theorem cleanLine_eq (line : List Char) :
    cleanLine line = trimBack (withoutMark ' ' (withoutMark '*' (trimFront line))) := by
  unfold cleanLine
  cases trimFront line with
  | nil => rfl
  | cons c cs =>
    by_cases hstar : c = '*'
    · subst hstar
      cases cs with
      | nil => rfl
      | cons d cs =>
        by_cases hspace : d = ' '
        · subst hspace
          rfl
        · simp [withoutMark, hspace]
    · by_cases hspace : c = ' '
      · subst hspace
        rfl
      · simp [withoutMark, hstar, hspace]

/-- White space behind a line does not count. -/
theorem cleanLine_append_blank {bs : List Char} (hbs : Blank bs) (line : List Char) :
    cleanLine (line ++ bs) = cleanLine line := by
  rw [cleanLine_eq, cleanLine_eq]
  rcases trimFront_append_blank hbs line with ⟨hnil, hnil'⟩ | ⟨c, rest, htrim, htrim'⟩
  · rw [hnil, hnil']
  · rw [htrim, htrim', withoutMark_cons_append]
    -- Behind the star the line can be empty, and then the space is one of `bs`.
    cases withoutMark '*' (c :: rest) with
    | nil => exact trimBack_blank (blank_withoutMark hbs ' ')
    | cons d text => rw [List.cons_append, withoutMark_cons_append, trimBack_append_blank _ hbs]

/-- Lines that are the same but for white space at their ends are cleaned alike. -/
theorem cleanLine_congr {cs ds : List Char} (h : trimBack cs = trimBack ds) :
    cleanLine cs = cleanLine ds :=
  congr_of_trimBack_eq (fun cs _ hbs => cleanLine_append_blank hbs cs) h

/-- The lines of a documentation comment, without the empty ones at the end. -/
def docLines (body : List Char) : List (List Char) :=
  dropBackWhile List.isEmpty ((linesOf body).map cleanLine)

/-- The first line of a comment, and the others. A carriage return at its end does not count, like
other white space there. -/
theorem map_cleanLine_linesOf {line : List Char} (hline : '\n' ∉ line) (rest : List Char) :
    (linesOf (line ++ '\n' :: rest)).map cleanLine =
      cleanLine line :: (linesOf rest).map cleanLine := by
  by_cases hreturn : line.getLast? = some '\r'
  · obtain ⟨before, rfl⟩ := List.getLast?_eq_some_iff.1 hreturn
    have hbefore : '\n' ∉ before := fun hmem => hline (List.mem_append_left _ hmem)
    have hblank : Blank ['\r'] := by
      intro c hc
      rw [List.mem_singleton.1 hc]
      decide
    rw [List.append_assoc, List.singleton_append, linesOf_append_return hbefore, List.map_cons,
      cleanLine_append_blank hblank]
  · rw [linesOf_append_newline hline hreturn, List.map_cons]

/-- The lines of a comment are its first line and those behind it. -/
theorem docLines_eq (body : List Char) :
    docLines body = dropBackWhile List.isEmpty
      (cleanLine (body.takeWhile (· != '\n')) :: docLines (body.dropWhile (· != '\n')).tail) := by
  have hbody := List.takeWhile_append_dropWhile (p := (· != '\n')) (l := body)
  have hline : '\n' ∉ body.takeWhile (· != '\n') := by
    intro hmem
    exact absurd (List.all_eq_true.1 List.all_takeWhile _ hmem) (by decide)
  rw [docLines, docLines, dropBackWhile_cons_dropBackWhile]
  generalize body.takeWhile (· != '\n') = line at hbody hline
  rcases dropWhile_newline body with hend | ⟨rest, hrest⟩
  · rw [hend, List.append_nil] at hbody
    rw [hend, ← hbody]
    cases line with
    | nil => rfl
    | cons c line =>
      rw [linesOf_last hline (List.cons_ne_nil _ _)]
      rfl
  · rw [hrest] at hbody
    rw [hrest, ← hbody, map_cleanLine_linesOf hline, List.tail_cons]

/-- A cleaned comment begins with its first line that is not empty. -/
theorem cleanDoc_eq (body : List Char) :
    cleanDoc body =
      match (docLines body).dropWhile List.isEmpty with
      | [] => none
      | kept => some (joinWith "\n" (kept.map String.ofList)) := by
  rw [docLines, ← dropBackWhile_dropWhile]
  rfl

end Comment

namespace Text.Respaced

/-- The lines of comments that differ at their line ends only are the same. -/
theorem docLines_eq {cs ds : List Char} (h : Respaced cs ds) :
    Comment.docLines cs = Comment.docLines ds := by
  -- The lines are compared pairwise; one of the texts can have blank lines that the other lacks.
  induction hn : cs.length + ds.length using Nat.strongRecOn generalizing cs ds with
  | _ n ih =>
    have hshort (cs : List Char) :
        (cs.dropWhile (· != '\n')).tail.length ≤ cs.length - 1 := by
      have hle := (List.dropWhile_sublist (· != '\n') (l := cs)).length_le
      rw [List.length_tail]
      omega
    by_cases hnil : n = 0
    · have hcs : cs = [] := List.length_eq_zero_iff.1 (by omega)
      have hds : ds = [] := List.length_eq_zero_iff.1 (by omega)
      rw [hcs, hds]
    · have hcs := hshort cs
      have hds := hshort ds
      rw [Comment.docLines_eq cs, Comment.docLines_eq ds, Comment.cleanLine_congr h.line.1,
        ih _ (by omega) h.behind_line rfl]

/-- Comments that differ at their line ends only are cleaned alike. -/
theorem cleanDoc_eq {cs ds : List Char} (h : Respaced cs ds) :
    Comment.cleanDoc cs = Comment.cleanDoc ds := by
  rw [Comment.cleanDoc_eq, Comment.cleanDoc_eq, h.docLines_eq]

end Text.Respaced

end DeclLayer
