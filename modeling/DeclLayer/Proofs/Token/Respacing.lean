import DeclLayer.Proofs.Token.Closed
import DeclLayer.Proofs.Token.CommentRespacing
import DeclLayer.Proofs.Token.Places
import DeclLayer.Proofs.Token.Spelling

/-!
# Scanning texts that differ at their line ends

Texts that differ at their line ends only have the same tokens with the same documentation comments,
at other places (`Token.sameFaces_of_respaced`), and so has a text whose line ends are normalized
(`Token.scan_normalize`). The proof runs the scanner over both texts at once. One step reads the
same lexeme from both and leaves two texts of this kind (`Token.alike_lexeme`), whatever the lexeme
is. Strings and templates are the exception: their texts are kept as they are written, line ends
included, so they must not hold any, and one that is not closed would reach to the end.
-/

namespace DeclLayer

/-- Strings and templates. -/
def Kind.isDelimited : Kind → Bool
  | .string _ | .template _ => true
  | _ => false

namespace Token

open Literal Text

/-! ## Visible characters -/

section

variable {c : Char}

/-- Letters, underscores, dollar signs and digits are visible. -/
theorem isBlank_of_identStart_or_digit (h : isIdentStart c = true ∨ c.isDigit = true) :
    isBlank c = false := by
  rw [isIdentStart_iff, isDigit_iff] at h
  simp only [isBlank, Bool.or_eq_false_iff, Bool.and_eq_false_iff, decide_eq_false_iff_not,
    beq_eq_false_iff_ne]
  omega

/-- Letters and digits are visible. -/
theorem isBlank_of_isAlphanum (h : c.isAlphanum = true) : isBlank c = false := by
  apply isBlank_of_identStart_or_digit
  rw [Char.isAlphanum, Bool.or_eq_true] at h
  rcases h with h | h
  · exact .inl (by rw [isIdentStart, h, Bool.true_or, Bool.true_or])
  · exact .inr h

/-- Characters of identifiers are visible. -/
theorem isBlank_of_isIdentChar (h : isIdentChar c = true) : isBlank c = false := by
  simp only [isIdentChar, Bool.or_eq_true, beq_iff_eq] at h
  rcases h with (h | rfl) | rfl
  · exact isBlank_of_isAlphanum h
  · decide
  · decide

/-- A character that goes on with a number, as a digit or as a sign. -/
theorem isBlank_of_numberChar {last : Char} {hex : Bool}
    (h : (isNumberChar c || ((c == '-' || c == '+') && (last == 'e' || last == 'E') && !hex)) =
      true) : isBlank c = false := by
  simp only [isNumberChar, Bool.or_eq_true, Bool.and_eq_true, beq_iff_eq] at h
  rcases h with ((h | rfl) | rfl) | ⟨⟨rfl | rfl, -⟩, -⟩
  · exact isBlank_of_isAlphanum h
  all_goals decide

/-- A blank is no mark. -/
theorem simplePunct?_of_isBlank (hc : isBlank c = true) : simplePunct? c = none := by
  unfold simplePunct?
  split <;> first | exact absurd hc (by decide) | rfl

/-- White space is skipped. -/
theorem lexeme_blank (hc : isBlank c = true) (cs : List Char) : lexeme c cs = (.skipped, 0) := by
  have hne (d : Char) (hd : isBlank d = false) : c ≠ d := by
    rintro rfl
    rw [hc] at hd
    cases hd
  have hword : ¬(isIdentStart c = true ∨ c.isDigit = true) := by
    intro h
    rw [isBlank_of_identStart_or_digit h] at hc
    cases hc
  rw [not_or] at hword
  rw [lexeme, simplePunct?_of_isBlank hc]
  dsimp only
  rw [if_neg (hne '\x60' (by decide)), if_neg (hne '.' (by decide)), if_neg (hne '=' (by decide)),
    if_neg (hne '/' (by decide)),
    if_neg (not_or.2 ⟨hne '"' (by decide), hne '\'' (by decide)⟩), if_neg hword.2,
    if_neg hword.1, if_neg fun h => hne '#' (by decide) h.1]

/-- White space in front is a gap. -/
theorem exists_lexemes_blank {bs : List Char} (h : Blank bs) (r : List Char) :
    ∃ gap, (∀ l ∈ gap, l.content = .skipped) ∧ rawText gap = bs ∧
      lexemes (bs ++ r) = gap ++ lexemes r := by
  induction bs with
  | nil => exact ⟨[], nofun, rfl, rfl⟩
  | cons c bs ih =>
    obtain ⟨hc, hbs⟩ := List.forall_mem_cons.1 h
    obtain ⟨gap, hgap, hraw, hlexemes⟩ := ih hbs
    refine ⟨⟨[c], .skipped⟩ :: gap, List.forall_mem_cons.2 ⟨rfl, hgap⟩, ?_, ?_⟩
    · rw [rawText_cons, hraw]
      rfl
    · rw [List.cons_append, lexemes, lexeme_blank hc]
      dsimp only
      rw [List.drop_zero, hlexemes]
      rfl

/-- The white space in front of a text is skipped. -/
theorem exists_lexemes_trimFront (cs : List Char) :
    ∃ gap, (∀ l ∈ gap, l.content = .skipped) ∧ lexemes cs = gap ++ lexemes (trimFront cs) := by
  have hblank : Blank (cs.takeWhile isBlank) := List.all_eq_true.1 List.all_takeWhile
  obtain ⟨gap, hgap, -, hlexemes⟩ := exists_lexemes_blank hblank (trimFront cs)
  rw [trimFront, List.takeWhile_append_dropWhile] at hlexemes
  exact ⟨gap, hgap, hlexemes⟩

end

/-! ## Words, numbers and comments -/

/-- Readings that say the same and leave texts that differ at their line ends only. -/
def Alike (cs ds : List Char) (r r' : Content × Nat) : Prop :=
  r.1 = r'.1 ∧ Respaced (cs.drop r.2) (ds.drop r'.2)

variable {cs ds : List Char}

/-- Dots are read alike. -/
theorem alike_dots (h : Respaced cs ds) : Alike cs ds (dots cs) (dots ds) := by
  rcases h.cases_char (c := '.') (by decide) with ⟨cs, ds, rfl, rfl, hone⟩ | ⟨hcs, hds⟩
  · rcases hone.cases_char (c := '.') (by decide) with ⟨cs, ds, rfl, rfl, htwo⟩ | ⟨hcs, hds⟩
    · exact ⟨rfl, htwo⟩
    · rw [dots.eq_2 cs hcs, dots.eq_2 ds hds]
      exact ⟨rfl, hone⟩
  · rw [dots.eq_3 cs (fun _ => hcs _) hcs, dots.eq_3 ds (fun _ => hds _) hds]
    exact ⟨rfl, h⟩

/-- An equals sign and what follows it. -/
theorem alike_equals (h : Respaced cs ds) :
    Alike cs ds
      (if cs.head? = some '>' then (.token (.punct .arrow), 1) else (.token (.punct .eq), 0))
      (if ds.head? = some '>' then (.token (.punct .arrow), 1) else (.token (.punct .eq), 0)) := by
  by_cases hhead : cs.head? = some '>'
  · obtain ⟨cs', rfl⟩ := List.head?_eq_some_iff.1 hhead
    obtain ⟨ds', rfl, hrest⟩ := h.cons_inv (by decide)
    exact ⟨rfl, hrest⟩
  · rw [if_neg hhead, if_neg fun hds => hhead ((h.head?_eq_iff (by decide)).2 hds)]
    exact ⟨rfl, h⟩

/-- The words in front are the same, and leave texts that differ at their line ends only. -/
theorem respaced_word (h : Respaced cs ds) :
    cs.take (identLength cs) = ds.take (identLength ds) ∧
      Respaced (cs.drop (identLength cs)) (ds.drop (identLength ds)) := by
  simp only [identLength, take_length_takeWhile, drop_length_takeWhile]
  exact h.takeWhile_eq fun c hc => isBlank_of_isIdentChar hc

/-- The numbers in front are the same, and leave texts that differ at their line ends only. -/
theorem respaced_number (hex : Bool) (last : Char) (h : Respaced cs ds) :
    cs.take (numberLength hex last cs) = ds.take (numberLength hex last ds) ∧
      Respaced (cs.drop (numberLength hex last cs)) (ds.drop (numberLength hex last ds)) := by
  have hnone {cs : List Char} (last : Char) (hcs : ∀ c ∈ cs.head?, isBlank c = true) :
      numberLength hex last cs = 0 := by
    cases cs with
    | nil => rfl
    | cons c cs =>
      rw [numberLength, if_neg]
      intro hc
      exact Bool.false_ne_true ((isBlank_of_numberChar hc).symm.trans (hcs c rfl))
  induction cs generalizing last ds with
  | nil =>
    rcases h.cases_head with ⟨hcs, hds⟩ | ⟨c, cs', ds', -, hcs, -, -⟩
    · rw [hnone last hcs, hnone last hds]
      exact ⟨rfl, h⟩
    · cases hcs
  | cons c cs ih =>
    rcases h.cases_head with ⟨hcs, hds⟩ | ⟨d, cs', ds', -, hcs, rfl, hrest⟩
    · rw [hnone last hcs, hnone last hds]
      exact ⟨rfl, h⟩
    · obtain ⟨rfl, rfl⟩ := List.cons.inj hcs
      rw [numberLength, numberLength]
      split
      · obtain ⟨htake, hdrop⟩ := ih c hrest
        exact ⟨congrArg (c :: ·) htake, hdrop⟩
      · exact ⟨rfl, h⟩

/-- What a line with three slashes in front is. -/
def directiveContent (line : List Char) : Content :=
  match Comment.directive? line with
  | some text => .token (.directive text)
  | none => .skipped

/-- What a block comment with the given body is. -/
def blockContent : List Char → Content
  | '*' :: body =>
    match Comment.cleanDoc body with
    | some text => .doc text
    | none => .skipped
  | _ => .skipped

/-- Block comments whose bodies differ at their line ends only say the same. -/
theorem blockContent_congr (h : Respaced cs ds) : blockContent cs = blockContent ds := by
  rcases h.cases_char (c := '*') (by decide) with ⟨cs, ds, rfl, rfl, hbody⟩ | ⟨hcs, hds⟩
  · rw [blockContent, blockContent, hbody.cleanDoc_eq]
  · rw [blockContent.eq_2 cs hcs, blockContent.eq_2 ds hds]

/-- What three slashes are: a directive or nothing, up to the end of the first line that is not
blank. -/
theorem slashes_directive (cs : List Char) :
    (slashes ('/' :: '/' :: cs)).1 = directiveContent ((trimFront cs).takeWhile (· != '\n')) ∧
      ('/' :: '/' :: cs).drop (slashes ('/' :: '/' :: cs)).2 =
        (trimFront cs).dropWhile (· != '\n') := by
  have hread (n m : Nat) : ('/' :: '/' :: cs).drop (2 + n + m) = (cs.drop n).drop m := by
    rw [Nat.add_assoc, Nat.add_comm 2, List.drop_drop]
    rfl
  have hslashes : slashes ('/' :: '/' :: cs) =
      (directiveContent ((trimFront cs).takeWhile (· != '\n')), 2 + (cs.takeWhile isBlank).length +
        ((trimFront cs).takeWhile (· != '\n')).length) := by
    rw [slashes, drop_length_takeWhile, ← trimFront, directiveContent]
    cases Comment.directive? ((trimFront cs).takeWhile (· != '\n')) <;> rfl
  rw [hslashes, hread, drop_length_takeWhile, ← trimFront, drop_length_takeWhile]
  exact ⟨rfl, rfl⟩

/-- What a slash and a star are: a comment with its body, and what follows it. -/
theorem slashes_block (cs : List Char) :
    (slashes ('*' :: cs)).1 = blockContent (Comment.blockBody cs) ∧
      ('*' :: cs).drop (slashes ('*' :: cs)).2 = Comment.blockRest cs := by
  have hread (n m : Nat) : ('*' :: cs).drop (1 + n + m) = cs.drop (n + m) := by
    rw [Nat.add_assoc, Nat.add_comm 1, List.drop_succ_cons]
  have hslashes : slashes ('*' :: cs) = (blockContent (Comment.blockBody cs),
      1 + (Comment.block cs).1 + if (Comment.block cs).2 then 2 else 0) := by
    rw [slashes, Comment.blockBody]
    obtain ⟨length, closed⟩ := Comment.block cs
    dsimp only
    generalize cs.take length = text
    split
    · next body =>
      rw [blockContent]
      cases Comment.cleanDoc body <;> rfl
    · next hdoc => rw [blockContent.eq_2 text hdoc]
  rw [hslashes, hread]
  exact ⟨rfl, rfl⟩

/-- What begins with a slash is read alike. -/
theorem alike_slashes (h : Respaced cs ds) : Alike cs ds (slashes cs) (slashes ds) := by
  rcases h.cases_char (c := '/') (by decide) with ⟨cs, ds, rfl, rfl, hone⟩ | ⟨hcs, hds⟩
  · rcases hone.cases_char (c := '/') (by decide) with ⟨cs, ds, rfl, rfl, htwo⟩ | ⟨hcs, hds⟩
    · obtain ⟨hline, hrest⟩ := htwo.trimFront.line
      rw [Alike, (slashes_directive cs).1, (slashes_directive cs).2, (slashes_directive ds).1,
        (slashes_directive ds).2, directiveContent, directiveContent,
        Comment.directive?_congr hline]
      exact ⟨rfl, hrest⟩
    · have hdrop (cs : List Char) :
          ('/' :: cs).drop (1 + Comment.lineLength cs) = cs.dropWhile (· != '\n') := by
        rw [Nat.add_comm, List.drop_succ_cons, Comment.lineLength, drop_length_takeWhile]
      rw [slashes.eq_2 cs hcs, slashes.eq_2 ds hds, Alike, hdrop, hdrop]
      exact ⟨rfl, hone.line.2⟩
  · rcases h.cases_char (c := '*') (by decide) with ⟨cs, ds, rfl, rfl, hone⟩ | ⟨hcs', hds'⟩
    · obtain ⟨hbody, hrest⟩ := hone.block
      rw [Alike, (slashes_block cs).1, (slashes_block cs).2, (slashes_block ds).1,
        (slashes_block ds).2]
      exact ⟨blockContent_congr hbody, hrest⟩
    · rw [slashes.eq_4 cs (fun _ => hcs _) hcs hcs', slashes.eq_4 ds (fun _ => hds _) hds hds']
      exact ⟨rfl, h⟩

/-! ## Literals -/

/-- A reader that takes `n` characters takes the same ones from both texts, if what it takes from
the first is on one line, ends with a closing mark and is read alone like in front of any text. -/
theorem respaced_literal {α : Type} {read : List Char → α} {n : α → Nat} {raw : List Char}
    {q : Char} (hq : isBlank q = false) (happend : ∀ r, read (raw ++ r) = read raw)
    (hclose : ∃ body rest, raw = body ++ q :: rest ∧ n (read raw) = body.length + 1)
    (hraw : raw = cs.take (n (read cs))) (hfeed : '\n' ∉ raw) (h : Respaced cs ds) :
    read cs = read ds ∧ cs.take (n (read cs)) = ds.take (n (read ds)) ∧
      Respaced (cs.drop (n (read cs))) (ds.drop (n (read ds))) := by
  obtain ⟨body, rest, hbody, hlength⟩ := hclose
  have hcs : cs = raw ++ cs.drop (n (read cs)) := by
    rw [hraw, List.take_append_drop]
  have hread : read cs = read raw := by
    rw [hcs, happend]
  -- The closing mark is the last character, so nothing but it and the body is read.
  have hend : raw = body ++ [q] := by
    have hle : raw.length ≤ body.length + 1 := by
      rw [← hlength, ← hread, hraw]
      exact List.length_take_le _ _
    rw [hbody, List.length_append, List.length_cons] at hle
    have hrest : rest = [] := List.length_eq_zero_iff.1 (by omega)
    rw [hbody, hrest]
  have hbody' : '\n' ∉ body := by
    rw [hend] at hfeed
    exact fun hmem => hfeed (List.mem_append_left _ hmem)
  rw [hend, List.append_assoc, List.singleton_append] at hcs
  obtain ⟨more, hds, hmore⟩ := (hcs ▸ h).append_inv hbody' hq
  rw [← List.singleton_append, ← List.append_assoc, ← hend] at hds
  have hread' : read ds = read raw := by
    rw [hds, happend]
  have hcount : n (read ds) = raw.length := by
    rw [hread', hlength, hend, List.length_append, List.length_singleton]
  refine ⟨hread.trans hread'.symm, ?_, ?_⟩
  · rw [← hraw, hcount, hds, List.take_left]
  · rw [hcount, hds, List.drop_left]
    exact hmore

/-- A string or template that is closed and stands on one line, or something else. -/
def Lexeme.Settled (l : Lexeme) : Prop :=
  ∀ kind, l.content = .token kind → kind.isDelimited = true →
    Literal.isClosed l.raw = true ∧ '\n' ∉ l.raw

/-- What a backquote begins. -/
theorem lexeme_template (cs : List Char) :
    lexeme '\x60' cs = (.token (.template (String.ofList (cs.take (template 0 cs).1))),
      (template 0 cs).1 + if (template 0 cs).2 then 1 else 0) := rfl

/-- What a quote begins. -/
theorem lexeme_string {q : Char} (hq : q = '"' ∨ q = '\'') (cs : List Char) :
    lexeme q cs =
      (.token (.string (String.ofList (Literal.string q cs).1)), (Literal.string q cs).2) := by
  rcases hq with rfl | rfl <;> rfl

/-- Templates are read alike if the first is closed on its line. -/
theorem alike_template (h : Respaced cs ds)
    (hsettled : Lexeme.Settled ⟨'\x60' :: cs.take (lexeme '\x60' cs).2, (lexeme '\x60' cs).1⟩) :
    Alike cs ds (lexeme '\x60' cs) (lexeme '\x60' ds) := by
  obtain ⟨hclosed, hfeed⟩ := hsettled _ rfl rfl
  have hclosed' : (template 0 (cs.take (lexeme '\x60' cs).2)).2 = true := hclosed
  rw [List.mem_cons, not_or] at hfeed
  obtain ⟨body, rest, hraw, hlength⟩ := template_closes hclosed'
  obtain ⟨hread, htake, hdrop⟩ := respaced_literal
    (n := fun r : Nat × Bool => r.1 + if r.2 then 1 else 0) (q := '\x60') (by decide)
    (template_append hclosed') ⟨body, rest, hraw, by rw [hlength, hclosed']; rfl⟩ rfl hfeed.2 h
  have hbody : cs.take (template 0 cs).1 = ds.take (template 0 cs).1 := by
    have hle : (template 0 cs).1 ≤ (template 0 cs).1 + if (template 0 cs).2 then 1 else 0 :=
      Nat.le_add_right _ _
    have htaken := congrArg (List.take (template 0 cs).1) htake
    rwa [← hread, List.take_take, List.take_take, Nat.min_eq_left hle] at htaken
  refine ⟨?_, hdrop⟩
  rw [lexeme_template, lexeme_template, ← hread, hbody]

/-- Strings are read alike if the first is closed on its line. -/
theorem alike_string {q : Char} (hq : q = '"' ∨ q = '\'') (h : Respaced cs ds)
    (hsettled : Lexeme.Settled ⟨q :: cs.take (lexeme q cs).2, (lexeme q cs).1⟩) :
    Alike cs ds (lexeme q cs) (lexeme q ds) := by
  have hvisible : isBlank q = false ∧ q ≠ '\x60' := by
    rcases hq with rfl | rfl <;> decide
  rw [lexeme_string hq] at hsettled
  obtain ⟨hclosed, hfeed⟩ := hsettled _ rfl rfl
  rw [isClosed, if_neg hvisible.2] at hclosed
  rw [List.mem_cons, not_or] at hfeed
  obtain ⟨hread, -, hdrop⟩ := respaced_literal (n := Prod.snd) hvisible.1
    (string_append hclosed) (string_closes hclosed) rfl hfeed.2 h
  rw [lexeme_string hq, lexeme_string hq, hread]
  rw [hread] at hdrop
  exact ⟨rfl, hdrop⟩

/-! ## Steps and runs -/

/-- The same lexeme is read from both texts. -/
theorem alike_lexeme {c : Char} (h : Respaced cs ds)
    (hsettled : Lexeme.Settled ⟨c :: cs.take (lexeme c cs).2, (lexeme c cs).1⟩) :
    Alike cs ds (lexeme c cs) (lexeme c ds) := by
  by_cases htemplate : c = '\x60'
  · subst htemplate
    exact alike_template h hsettled
  by_cases hstring : c = '"' ∨ c = '\''
  · exact alike_string hstring h hsettled
  rw [lexeme, lexeme]
  cases simplePunct? c with
  | some p => exact ⟨rfl, h⟩
  | none =>
    dsimp only
    rw [if_neg htemplate, if_neg htemplate, if_neg hstring, if_neg hstring]
    by_cases hdot : c = '.'
    · rw [if_pos hdot, if_pos hdot]
      exact alike_dots h
    rw [if_neg hdot, if_neg hdot]
    by_cases hequals : c = '='
    · rw [if_pos hequals, if_pos hequals]
      exact alike_equals h
    rw [if_neg hequals, if_neg hequals]
    by_cases hslash : c = '/'
    · rw [if_pos hslash, if_pos hslash]
      exact alike_slashes h
    rw [if_neg hslash, if_neg hslash]
    by_cases hdigit : c.isDigit = true
    · have hhex : (cs.head? == some 'x') = (ds.head? == some 'x') := by
        rw [Bool.eq_iff_iff, beq_iff_eq, beq_iff_eq]
        exact h.head?_eq_iff (by decide)
      rw [if_pos hdigit, if_pos hdigit, hhex]
      obtain ⟨hnumber, hrest⟩ := respaced_number (c == '0' && ds.head? == some 'x') c h
      rw [hnumber]
      exact ⟨rfl, hrest⟩
    rw [if_neg hdigit, if_neg hdigit]
    obtain ⟨hword, hrest⟩ := respaced_word h
    by_cases hident : isIdentStart c = true
    · rw [if_pos hident, if_pos hident, hword]
      exact ⟨rfl, hrest⟩
    rw [if_neg hident, if_neg hident]
    have hprivate := h.head_any (p := fun d => d.isAlpha || d == '_') fun d hd =>
      isBlank_of_identStart_or_digit (.inl (by rw [isIdentStart, hd, Bool.true_or]))
    rw [hprivate, hword]
    split
    · exact ⟨rfl, hrest⟩
    · exact ⟨rfl, h⟩

/-- Texts that differ at their line ends only have the same tokens, if their strings and templates
are closed and hold no line end. -/
theorem sameFaces_of_respaced (h : Respaced cs ds) (hsettled : ∀ l ∈ lexemes cs, l.Settled) :
    SameFaces (lexemes cs) (lexemes ds) := by
  -- White space is skipped in both texts, then the same lexeme is read from both.
  induction hn : cs.length using Nat.strongRecOn generalizing cs ds with
  | _ n ih =>
    obtain ⟨gap, hgap, hcs⟩ := exists_lexemes_trimFront cs
    obtain ⟨gap', hgap', hds⟩ := exists_lexemes_trimFront ds
    have hle : (trimFront cs).length ≤ cs.length := (List.dropWhile_sublist _).length_le
    have htrim := h.trimFront
    rw [hcs] at hsettled
    rw [hcs, hds]
    apply SameFaces.gaps hgap hgap'
    rcases htrim.cases_head with ⟨hblank, hblank'⟩ | ⟨c, cs', ds', -, hcs', hds', hrest⟩
    · rw [trimFront_eq_nil hblank, trimFront_eq_nil hblank', lexemes_nil]
      exact .nil
    · rw [hcs', lexemes] at hsettled
      rw [hcs', List.length_cons] at hle
      obtain ⟨hfirst, hsettled'⟩ := List.forall_mem_cons.1 (List.forall_mem_append.1 hsettled).2
      obtain ⟨hcontent, hmore⟩ := alike_lexeme hrest hfirst
      rw [hcs', hds', lexemes, lexemes]
      refine .cons hcontent (ih _ ?_ hmore hsettled' rfl)
      rw [List.length_drop]
      omega

/-- Every string and every template of a source is closed, and no line ends inside it. -/
def InlineLiterals (s : String) : Prop :=
  ∀ t ∈ scan s, t.kind.isDelimited = true →
    Literal.isClosed (slice s.toList t.start t.stop) = true ∧ '\n' ∉ slice s.toList t.start t.stop

instance (s : String) : Decidable (InlineLiterals s) :=
  inferInstanceAs (Decidable (∀ t ∈ scan s, t.kind.isDelimited = true →
    Literal.isClosed (slice s.toList t.start t.stop) = true ∧
      '\n' ∉ slice s.toList t.start t.stop))

/-- If every string and template of a source is closed on its line, so is every lexeme of this kind.
-/
theorem InlineLiterals.settled {s : String} (h : InlineLiterals s) :
    ∀ l ∈ lexemes s.toList, l.Settled := by
  intro l hl kind hkind hdelimited
  obtain ⟨t, ht, rfl, hslice⟩ := exists_located hkind hl [] []
  have htext : rawText (lexemes s.toList) = s.toList := flatMap_raw_lexemes _
  rw [List.nil_append, htext] at hslice
  rw [← hslice]
  exact h t ht hdelimited

/-- Normalizing the line ends of a text changes the places of its tokens only, not their kinds and
not their documentation comments. It does not matter where else the text has carriage returns. -/
theorem scan_normalize (lineEnd : LineEnd) (s : String) (h : InlineLiterals s) :
    (scan (lineEnd.normalize s)).map face = (scan s).map face := by
  have hfaces := sameFaces_of_respaced (LineEnd.respaced_normalize lineEnd s) h.settled
  exact (hfaces 0 0 []).symm

/-- A directive on the line after its slashes, a comment of two lines, a string, a template that
ends with spaces, and a comment that is not closed. -/
def spacedSource : String :=
  "///  \r\n <reference path=\"a\" />  \r\n/** b  \r\n * c */ 'd\\'e' `f  `  \r\n/** g  "

/-- A source with a directive, comments and literals keeps its tokens when it is normalized, and the
spaces in its template. -/
theorem scan_normalize_spacedSource :
    (InlineLiterals spacedSource ∧ ⟨.template "f  ", 58, 63, []⟩ ∈ scan spacedSource ∧
      LineEnd.lf.normalize spacedSource =
        "///\n <reference path=\"a\" />\n/** b\n * c */ 'd\\'e' `f  `\n/** g\n") ∧
    (scan (LineEnd.lf.normalize spacedSource)).map face = (scan spacedSource).map face :=
  ⟨by decide +kernel, scan_normalize .lf spacedSource (by decide +kernel)⟩

-- A template that holds a line end loses the spaces before it.
example :
    (scan (LineEnd.lf.normalize "`a \n`")).map face = [(.template "a\n", []), (.eof, [])] ∧
      (scan "`a \n`").map face = [(.template "a \n", []), (.eof, [])] := by
  decide +kernel

end Token

end DeclLayer
