import DeclLayer.Text.Basic

/-!
# Cutting and trimming

What the pieces of a text have to do with the text: cutting at a separator and joining with it undo
each other, every line is somewhere in the text and holds no line feed, and what is trimmed at the
back is the longest run that can be.
-/

namespace DeclLayer.Text

/-! ## Separators -/

/-- Splitting gives at least one part. -/
theorem splitAt_ne_nil (sep : Char) (cs : List Char) : splitAt sep cs ≠ [] := by
  cases cs with
  | nil => exact List.cons_ne_nil _ _
  | cons c cs =>
    rw [splitAt]
    split
    · exact List.cons_ne_nil _ _
    · split <;> exact List.cons_ne_nil _ _

/-- Cutting at a separator is undone by joining. -/
theorem intercalate_splitAt (sep : Char) (cs : List Char) :
    [sep].intercalate (splitAt sep cs) = cs := by
  induction cs with
  | nil => rfl
  | cons c cs ih =>
    rw [splitAt]
    split
    · next hc =>
      subst hc
      cases hpieces : splitAt c cs with
      | nil => exact absurd hpieces (splitAt_ne_nil c cs)
      | cons piece pieces =>
        rw [List.intercalate_cons_cons, ← hpieces, ih]
        rfl
    · split
      · next hpieces => exact absurd hpieces (splitAt_ne_nil sep cs)
      · next piece pieces hpieces =>
        rw [hpieces] at ih
        cases pieces with
        | nil =>
          rw [← ih]
          simp
        | cons next rest =>
          rw [List.intercalate_cons_cons] at ih ⊢
          rw [← ih]
          rfl

/-- Joining words without the separator is undone by cutting. -/
theorem splitAt_intercalate (sep : Char) {pieces : List (List Char)} (hne : pieces ≠ [])
    (h : ∀ piece ∈ pieces, sep ∉ piece) : splitAt sep ([sep].intercalate pieces) = pieces := by
  have hword (word rest : List Char) (hword : sep ∉ word) :
      splitAt sep (word ++ sep :: rest) = word :: splitAt sep rest ∧ splitAt sep word = [word] := by
    induction word with
    | nil => exact ⟨by rw [List.nil_append, splitAt, if_pos rfl], rfl⟩
    | cons c word ih =>
      rw [List.mem_cons, not_or] at hword
      obtain ⟨hrest, hend⟩ := ih hword.2
      constructor
      · rw [List.cons_append, splitAt, if_neg (Ne.symm hword.1), hrest]
      · rw [splitAt, if_neg (Ne.symm hword.1), hend]
  induction pieces with
  | nil => exact absurd rfl hne
  | cons piece pieces ih =>
    obtain ⟨hpiece, hpieces⟩ := List.forall_mem_cons.1 h
    cases pieces with
    | nil =>
      rw [List.intercalate_singleton]
      exact (hword piece [] hpiece).2
    | cons next rest =>
      rw [List.intercalate_cons_cons, List.append_assoc, List.singleton_append,
        (hword piece _ hpiece).1, ih (List.cons_ne_nil _ _) hpieces]

/-- No piece holds the separator. -/
theorem not_mem_of_mem_splitAt {sep : Char} {cs piece : List Char} (h : piece ∈ splitAt sep cs) :
    sep ∉ piece := by
  induction cs generalizing piece with
  | nil =>
    rw [List.mem_singleton.1 h]
    exact List.not_mem_nil
  | cons c cs ih =>
    rw [splitAt] at h
    split at h
    · rcases List.mem_cons.1 h with rfl | h
      · exact List.not_mem_nil
      · exact ih h
    · next hc =>
      split at h
      · next hpieces => exact absurd hpieces (splitAt_ne_nil sep cs)
      · next first rest hpieces =>
        rw [hpieces] at ih
        rcases List.mem_cons.1 h with rfl | h
        · rw [List.mem_cons, not_or]
          exact ⟨Ne.symm hc, ih List.mem_cons_self⟩
        · exact ih (List.mem_cons_of_mem _ h)

/-! ## Searching -/

/-- What is found behind a pattern has the pattern in front. -/
theorem after?_eq_some {pattern cs rest : List Char} (h : after? pattern cs = some rest) :
    cs = pattern ++ rest := by
  fun_induction after? pattern cs with
  | case1 cs => exact Option.some.inj h
  | case2 p ps => cases h
  | case3 p ps cs ih => rw [List.cons_append, ← ih h]
  | case4 p ps c cs hne => cases h

/-- What is found behind the first occurrence of a pattern has the pattern somewhere in front. -/
theorem afterFirst?_eq_some {pattern cs rest : List Char} (h : afterFirst? pattern cs = some rest) :
    ∃ front, cs = front ++ (pattern ++ rest) := by
  fun_induction afterFirst? pattern cs with
  | case1 =>
    have hrest := after?_eq_some h
    exact ⟨[], hrest⟩
  | case2 c cs rest' hafter =>
    have hrest := after?_eq_some (hafter.trans h)
    exact ⟨[], hrest⟩
  | case3 c cs hafter ih =>
    obtain ⟨front, hfront⟩ := ih h
    exact ⟨c :: front, congrArg (c :: ·) hfront⟩

/-- What is found before a character is followed by it. -/
theorem before?_eq_some {stop : Char} {cs front : List Char} (h : before? stop cs = some front) :
    ∃ rest, cs = front ++ stop :: rest := by
  rw [before?] at h
  split at h
  · next hmem =>
    cases h
    obtain ⟨inner, rest, rfl, hinner⟩ :=
      List.eq_append_cons_of_mem (List.contains_iff_mem.1 hmem)
    have hpass : ∀ c ∈ inner, (c != stop) = true := by
      intro c hc
      exact bne_iff_ne.2 fun heq => hinner (heq ▸ hc)
    refine ⟨rest, ?_⟩
    rw [List.takeWhile_append_of_pos hpass, List.takeWhile_cons_of_neg (by simp), List.append_nil]
  · cases h

/-! ## Lines -/

/-- A line up to its line feed. A carriage return before the line feed would belong to the line end.
-/
theorem linesOf_append_newline {line : List Char} (hfeed : '\n' ∉ line)
    (hreturn : line.getLast? ≠ some '\r') (rest : List Char) :
    linesOf (line ++ '\n' :: rest) = line :: linesOf rest := by
  induction line with
  | nil => rw [List.nil_append, linesOf]
  | cons c line ih =>
    rw [List.mem_cons, not_or] at hfeed
    have hlast : line.getLast? ≠ some '\r' := by
      intro h
      rw [List.getLast?_cons, h] at hreturn
      exact hreturn rfl
    rw [List.cons_append, linesOf, ih hfeed.2 hlast]
    · exact Ne.symm hfeed.1
    · -- A carriage return here is not the last character, so no line feed follows it.
      rintro cs rfl hcs
      cases line with
      | nil => exact hreturn rfl
      | cons d line =>
        have hd : d = '\n' := (List.cons.inj hcs).1
        exact hfeed.2 (hd ▸ List.mem_cons_self ..)

/-- A line up to its carriage return and line feed. -/
theorem linesOf_append_return {line : List Char} (hfeed : '\n' ∉ line) (rest : List Char) :
    linesOf (line ++ '\r' :: '\n' :: rest) = line :: linesOf rest := by
  induction line with
  | nil => rw [List.nil_append, linesOf]
  | cons c line ih =>
    rw [List.mem_cons, not_or] at hfeed
    rw [List.cons_append, linesOf, ih hfeed.2]
    · exact Ne.symm hfeed.1
    · rintro cs rfl hcs
      cases line with
      | nil => exact absurd (List.cons.inj hcs).1 (by decide)
      | cons d line =>
        have hd : d = '\n' := (List.cons.inj hcs).1
        exact hfeed.2 (hd ▸ List.mem_cons_self ..)

/-- The last line, without a line feed. -/
theorem linesOf_last {line : List Char} (hfeed : '\n' ∉ line) (hne : line ≠ []) :
    linesOf line = [line] := by
  induction line with
  | nil => exact absurd rfl hne
  | cons c line ih =>
    rw [List.mem_cons, not_or] at hfeed
    cases line with
    | nil =>
      rw [linesOf, linesOf]
      · exact Ne.symm hfeed.1
      · rintro cs rfl hcs
        cases hcs
    | cons d line =>
      rw [linesOf, ih hfeed.2 (List.cons_ne_nil _ _)]
      · exact Ne.symm hfeed.1
      · rintro cs rfl hcs
        have hd : d = '\n' := (List.cons.inj hcs).1
        exact hfeed.2 (hd ▸ List.mem_cons_self ..)

/-- The first line is at the front, the others are somewhere behind it, and none holds a line feed.
-/
theorem linesOf_cons_inv {cs first : List Char} {rest : List (List Char)}
    (h : linesOf cs = first :: rest) :
    ('\n' ∉ first ∧ first <+: cs) ∧ ∀ line ∈ rest, '\n' ∉ line ∧ line <:+: cs := by
  -- All lines after a line end lie in what follows it.
  have hbehind (cs all : List Char) (hsuffix : cs <:+ all)
      (ih : ∀ first rest, linesOf cs = first :: rest →
        ('\n' ∉ first ∧ first <+: cs) ∧ ∀ line ∈ rest, '\n' ∉ line ∧ line <:+: cs) :
      ∀ line ∈ linesOf cs, '\n' ∉ line ∧ line <:+: all := by
    intro line hline
    cases hlines : linesOf cs with
    | nil =>
      rw [hlines] at hline
      cases hline
    | cons first rest =>
      obtain ⟨⟨hfeed, hprefix⟩, hrest⟩ := ih first rest hlines
      rw [hlines] at hline
      rcases List.mem_cons.1 hline with rfl | hline
      · exact ⟨hfeed, hprefix.isInfix.trans hsuffix.isInfix⟩
      · exact ⟨(hrest line hline).1, (hrest line hline).2.trans hsuffix.isInfix⟩
  induction cs using linesOf.induct generalizing first rest with
  | case1 => cases h
  | case2 cs ih =>
    rw [linesOf] at h
    obtain ⟨rfl, rfl⟩ := List.cons.inj h
    exact ⟨⟨List.not_mem_nil, List.nil_prefix⟩,
      hbehind cs _ (List.suffix_cons _ _) fun _ _ h => ih h⟩
  | case3 cs ih =>
    rw [linesOf] at h
    obtain ⟨rfl, rfl⟩ := List.cons.inj h
    exact ⟨⟨List.not_mem_nil, List.nil_prefix⟩,
      hbehind cs _ ((List.suffix_cons _ _).trans (List.suffix_cons _ _)) fun _ _ h => ih h⟩
  | case4 c cs hfeed hreturn hlines ih =>
    rw [linesOf.eq_4 _ _ hfeed hreturn, hlines] at h
    obtain ⟨rfl, rfl⟩ := List.cons.inj h
    refine ⟨⟨?_, List.prefix_cons_inj c |>.2 List.nil_prefix⟩, nofun⟩
    rw [List.mem_singleton]
    exact fun hc => hfeed hc.symm
  | case5 c cs hfeed hreturn line lines hlines ih =>
    rw [linesOf.eq_4 _ _ hfeed hreturn, hlines] at h
    obtain ⟨rfl, rfl⟩ := List.cons.inj h
    obtain ⟨⟨hline, hprefix⟩, hlines⟩ := ih hlines
    refine ⟨⟨?_, List.prefix_cons_inj c |>.2 hprefix⟩, fun other hother => ?_⟩
    · rw [List.mem_cons, not_or]
      exact ⟨fun hc => hfeed hc.symm, hline⟩
    · obtain ⟨hother, hinfix⟩ := hlines other hother
      exact ⟨hother, hinfix.trans (List.suffix_cons c cs).isInfix⟩

/-- Every line is somewhere in the text and holds no line feed. -/
theorem infix_of_mem_linesOf {cs line : List Char} (h : line ∈ linesOf cs) :
    '\n' ∉ line ∧ line <:+: cs := by
  cases hlines : linesOf cs with
  | nil =>
    rw [hlines] at h
    cases h
  | cons first rest =>
    obtain ⟨⟨hfirst, hprefix⟩, hrest⟩ := linesOf_cons_inv hlines
    rw [hlines] at h
    rcases List.mem_cons.1 h with rfl | h
    · exact ⟨hfirst, hprefix.isInfix⟩
    · exact hrest line h

/-! ## Trimming -/

section

variable {α : Type} {p : α → Bool}

/-- As many elements as satisfy a condition at the front are those elements. -/
theorem take_length_takeWhile (xs : List α) : xs.take (xs.takeWhile p).length = xs.takeWhile p := by
  have htake := @List.take_left _ (xs.takeWhile p) (xs.dropWhile p)
  rwa [List.takeWhile_append_dropWhile] at htake

/-- Behind as many elements as satisfy a condition at the front are the others. -/
theorem drop_length_takeWhile (xs : List α) : xs.drop (xs.takeWhile p).length = xs.dropWhile p := by
  have hdrop := @List.drop_left _ (xs.takeWhile p) (xs.dropWhile p)
  rwa [List.takeWhile_append_dropWhile] at hdrop

/-- The end of a list that has been trimmed is no longer trimmed. -/
theorem dropBackWhile_eq_self {xs : List α} (h : ∀ x ∈ xs.getLast?, p x = false) :
    dropBackWhile p xs = xs := by
  induction xs with
  | nil => rfl
  | cons x xs ih =>
    cases xs with
    | nil =>
      have hx : p x = false := h x rfl
      rw [dropBackWhile, dropBackWhile]
      simp only [hx, Bool.false_eq_true, if_false]
    | cons y ys =>
      rw [dropBackWhile, ih fun z hz => h z (by rw [List.getLast?_cons_cons]; exact hz)]

/-- An element at the back that satisfies the condition is dropped. -/
theorem dropBackWhile_concat {x : α} (hx : p x = true) (xs : List α) :
    dropBackWhile p (xs ++ [x]) = dropBackWhile p xs := by
  induction xs with
  | nil =>
    rw [List.nil_append, dropBackWhile, dropBackWhile]
    exact if_pos hx
  | cons y ys ih => rw [List.cons_append, dropBackWhile, ih, dropBackWhile]

/-- Elements at the back that satisfy the condition are dropped. -/
theorem dropBackWhile_append {ys : List α} (h : ∀ y ∈ ys, p y = true) (xs : List α) :
    dropBackWhile p (xs ++ ys) = dropBackWhile p xs := by
  induction ys generalizing xs with
  | nil => rw [List.append_nil]
  | cons y ys ih =>
    obtain ⟨hy, hys⟩ := List.forall_mem_cons.1 h
    rw [← List.singleton_append, ← List.append_assoc, ih hys, dropBackWhile_concat hy]

/-- What is left does not end with an element that satisfies the condition. -/
theorem getLast?_dropBackWhile (xs : List α) :
    ∀ x ∈ (dropBackWhile p xs).getLast?, p x = false := by
  induction xs with
  | nil => nofun
  | cons x xs ih =>
    rw [dropBackWhile]
    split
    · split
      · nofun
      · next hx =>
        intro y hy
        cases hy
        exact Bool.eq_false_iff.2 hx
    · next y ys hys =>
      rw [hys] at ih
      rw [List.getLast?_cons_cons]
      exact ih

/-- What is taken off the end satisfies the condition. -/
theorem exists_dropBackWhile_append (p : α → Bool) (xs : List α) :
    ∃ taken, xs = dropBackWhile p xs ++ taken ∧ ∀ x ∈ taken, p x = true := by
  induction xs with
  | nil => exact ⟨[], rfl, nofun⟩
  | cons x xs ih =>
    obtain ⟨taken, htaken, hall⟩ := ih
    rw [dropBackWhile]
    split
    · next hnil =>
      rw [hnil, List.nil_append] at htaken
      subst htaken
      split
      · next hx => exact ⟨x :: xs, rfl, List.forall_mem_cons.2 ⟨hx, hall⟩⟩
      · exact ⟨xs, rfl, hall⟩
    · next y ys hys =>
      rw [hys] at htaken
      exact ⟨taken, congrArg (x :: ·) htaken, hall⟩

/-- Dropping from the back may be done before an element is put in front. -/
theorem dropBackWhile_cons_dropBackWhile (x : α) (xs : List α) :
    dropBackWhile p (x :: dropBackWhile p xs) = dropBackWhile p (x :: xs) := by
  rw [dropBackWhile, dropBackWhile, dropBackWhile_eq_self (getLast?_dropBackWhile xs)]

/-- The two ends are trimmed independently of each other. -/
theorem dropBackWhile_dropWhile (xs : List α) :
    dropBackWhile p (xs.dropWhile p) = (dropBackWhile p xs).dropWhile p := by
  induction xs with
  | nil => rfl
  | cons x xs ih =>
    cases hx : p x with
    | false =>
      have hneg : ¬p x = true := Bool.eq_false_iff.1 hx
      rw [List.dropWhile_cons_of_neg hneg, dropBackWhile]
      split
      · rw [if_neg hneg, List.dropWhile_cons_of_neg hneg]
      · rw [List.dropWhile_cons_of_neg hneg]
    | true =>
      rw [List.dropWhile_cons_of_pos hx, ih, dropBackWhile]
      split
      · next hnil => rw [hnil, if_pos hx]
      · next y ys hys => rw [hys, List.dropWhile_cons_of_pos hx]

/-- What is left is an initial part. -/
theorem dropBackWhile_initial (xs : List α) : dropBackWhile p xs <+: xs := by
  obtain ⟨taken, htaken, -⟩ := exists_dropBackWhile_append p xs
  exact ⟨taken, htaken.symm⟩

end

end DeclLayer.Text
