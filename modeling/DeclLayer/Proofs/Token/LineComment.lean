import DeclLayer.Proofs.Token.Respacing

/-!
# Line comments

A text behind two slashes ends with its line. It is a comment, a directive, or the bare mark of
three slashes with at most white space behind it (`Comment.Line`). The scanner skips a comment with
its line end, so that the tokens of what follows only move, and makes one token of a directive.

A bare mark is different. The scanner skips white space behind three slashes before it looks for a
directive, and goes on past the line end: the first line that is not blank is taken for the text of
the directive. It is lost, unless it reads as a directive itself (`Token.scan_line`). The tokens of
what follows a bare mark are therefore kept only where that line contributes none.
-/

namespace DeclLayer

namespace Comment

open Text

/-! ## Kinds of lines -/

/-- What a line is behind its two slashes. -/
inductive Line where
  | comment
  | directive (text : String)
  /-- A third slash, with at most white space behind it. -/
  | bare
  deriving DecidableEq, Repr

/-- The kind of the line behind two slashes. -/
def lineKind : List Char → Line
  | '/' :: text =>
    if text.all isBlank then .bare
    else match directive? text with
      | some value => .directive value
      | none => .comment
  | _ => .comment

/-- A bare mark is a third slash with white space behind it. -/
theorem lineKind_eq_bare {c : List Char} (h : lineKind c = .bare) :
    ∃ text, c = '/' :: text ∧ Blank text := by
  rw [lineKind.eq_def] at h
  split at h
  · next text =>
    split at h
    · next hblank => exact ⟨text, rfl, List.all_eq_true.1 hblank⟩
    · split at h <;> cases h
  · cases h

/-- What stands behind a visible text is found without the white space in front. -/
theorem afterFirst?_trimFront {p : Char} (hp : isBlank p = false) (ps cs : List Char) :
    afterFirst? (p :: ps) (trimFront cs) = afterFirst? (p :: ps) cs := by
  induction cs with
  | nil => rfl
  | cons c cs ih =>
    cases hc : isBlank c with
    | false => rw [trimFront, List.dropWhile_cons_of_neg (Bool.eq_false_iff.1 hc)]
    | true =>
      have hne : p ≠ c := by
        rintro rfl
        rw [hp] at hc
        cases hc
      have hafter : after? (p :: ps) (c :: cs) = none := if_neg hne
      rw [trimFront, List.dropWhile_cons_of_pos hc, ← trimFront, ih]
      simp only [afterFirst?, hafter]

/-- An attribute is found without the white space in front of the line. -/
theorem attribute?_trimFront {name : String} {p : Char} {ps : List Char}
    (hname : name.toList ++ ['=', '"'] = p :: ps) (hp : isBlank p = false) (cs : List Char) :
    attribute? name (trimFront cs) = attribute? name cs := by
  rw [attribute?, attribute?, hname, afterFirst?_trimFront hp]

/-- White space in front of a directive does not count. -/
theorem directive?_trimFront (cs : List Char) : directive? (trimFront cs) = directive? cs := by
  rw [directive?, directive?, trimFront_trimFront, attribute?_trimFront rfl (by decide),
    attribute?_trimFront rfl (by decide)]

end Comment

namespace Token

open Comment Text

/-! ## Lexemes of a line -/

variable {c rest : List Char}

/-- What a slash begins is read by `slashes`. -/
theorem lexeme_slash (cs : List Char) : lexeme '/' cs = slashes cs := rfl

/-- What is read behind a slash is known from what is left. -/
theorem lexemes_slash {body : List Char} {content : Content}
    (hcontent : (slashes (body ++ rest)).1 = content)
    (hdrop : (body ++ rest).drop (slashes (body ++ rest)).2 = rest) :
    lexemes ('/' :: (body ++ rest)) = ⟨'/' :: body, content⟩ :: lexemes rest := by
  rw [lexemes, lexeme_slash]
  generalize slashes (body ++ rest) = reading at hcontent hdrop ⊢
  obtain ⟨found, read⟩ := reading
  dsimp only at hcontent hdrop ⊢
  have htake : (body ++ rest).take read = body := by
    refine List.append_cancel_right (?_ : _ ++ rest = _)
    exact (congrArg (_ ++ ·) hdrop.symm).trans (List.take_append_drop _ _)
  rw [hcontent, htake, hdrop]

/-- Three slashes are read up to the end of the first line that is not blank. -/
theorem lexemes_triple (cs : List Char) :
    lexemes ('/' :: '/' :: '/' :: cs) =
      ⟨'/' :: '/' :: '/' :: (cs.takeWhile isBlank ++ (trimFront cs).takeWhile (· != '\n')),
        directiveContent ((trimFront cs).takeWhile (· != '\n'))⟩ ::
      lexemes ((trimFront cs).dropWhile (· != '\n')) := by
  obtain ⟨hcontent, hdrop⟩ := slashes_directive cs
  have hsplit : '/' :: '/' :: cs =
      '/' :: '/' :: (cs.takeWhile isBlank ++ (trimFront cs).takeWhile (· != '\n')) ++
        (trimFront cs).dropWhile (· != '\n') := by
    rw [List.cons_append, List.cons_append, List.append_assoc, List.takeWhile_append_dropWhile,
      trimFront, List.takeWhile_append_dropWhile]
  rw [hsplit] at hcontent hdrop ⊢
  exact lexemes_slash hcontent hdrop

/-- A line without a third slash is skipped. -/
theorem lexemes_comment (hfeed : '\n' ∉ c) (hmark : ∀ text, c ≠ '/' :: text) (rest : List Char) :
    lexemes ('/' :: '/' :: (c ++ '\n' :: rest)) =
      ⟨'/' :: '/' :: c, .skipped⟩ :: lexemes ('\n' :: rest) := by
  have hslash : ∀ more, c ++ '\n' :: rest ≠ '/' :: more := by
    rintro more heq
    cases c with
    | nil => cases heq
    | cons d c => exact hmark c (congrArg (· :: c) (List.cons.inj heq).1)
  have hlexeme : lexeme '/' ('/' :: (c ++ '\n' :: rest)) = (.skipped, ('/' :: c).length) := by
    rw [lexeme_slash, slashes.eq_2 _ hslash, Comment.lineLength, (takeWhile_line hfeed rest).1,
      List.length_cons, Nat.add_comm]
  rw [← List.cons_append, lexemes_cons_append hlexeme]

/-- Behind three slashes, a text that is not blank ends with its line. -/
theorem lexemes_marked {text : List Char} (hfeed : '\n' ∉ text)
    (hvisible : ¬text.all isBlank = true) (rest : List Char) :
    lexemes ('/' :: '/' :: '/' :: (text ++ '\n' :: rest)) =
      ⟨'/' :: '/' :: '/' :: text, directiveContent text⟩ :: lexemes ('\n' :: rest) := by
  obtain ⟨bs, v, vs, rfl, hbs, hv⟩ := exists_visible hvisible
  have hsplit (more : List Char) :
      (bs ++ v :: more).takeWhile isBlank = bs ∧ trimFront (bs ++ v :: more) = v :: more := by
    have hv' : ¬isBlank v = true := Bool.eq_false_iff.1 hv
    rw [trimFront_blank_append hbs, trimFront, List.takeWhile_append_of_pos hbs,
      List.dropWhile_cons_of_neg hv', List.takeWhile_cons_of_neg hv', List.append_nil]
    exact ⟨rfl, rfl⟩
  have hline := takeWhile_line (fun hmem => hfeed (List.mem_append_right bs hmem)) rest
  rw [List.cons_append] at hline
  have hcontent : directiveContent (v :: vs) = directiveContent (bs ++ v :: vs) := by
    rw [directiveContent, directiveContent, ← directive?_trimFront (bs ++ v :: vs), (hsplit vs).2]
  rw [List.append_assoc, List.cons_append, lexemes_triple, (hsplit _).1, (hsplit _).2,
    hline.1, hline.2, hcontent]

/-! ## Tokens behind a line -/

/-- The first line that is not blank, from its first visible character on. -/
def nextLine (s : String) : List Char :=
  (trimFront s.toList).takeWhile (· != '\n')

/-- The text behind the first line that is not blank. -/
def behindNextLine (s : String) : String :=
  String.ofList ((trimFront s.toList).dropWhile (· != '\n'))

/-- The number of bytes up to the end of the first line that is not blank. -/
def nextLineEnd (s : String) : Nat :=
  utf8Size (s.toList.takeWhile isBlank ++ nextLine s)

/-- The tokens of a bare mark of `n` bytes, its line feed included, and of the text behind it. -/
def scanBare (n : Nat) (rest : String) : List Token :=
  let stop := n + nextLineEnd rest
  let later := (scan (behindNextLine rest)).map (shift stop)
  match directive? (nextLine rest) with
  | some text => ⟨.directive text, 0, stop, []⟩ :: later
  | none => later

/-- The lexemes of a text behind `n` bytes give its tokens, moved. -/
theorem locate_eq_shift (n : Nat) (s : String) :
    locate n [] (lexemes s.toList) = (scan s).map (shift n) := by
  rw [scan, ← locate_shift, Nat.zero_add]

/-- A line feed is skipped. -/
theorem lexemes_newline (cs : List Char) :
    lexemes ('\n' :: cs) = ⟨['\n'], .skipped⟩ :: lexemes cs := by
  rw [lexemes, lexeme_blank isBlank_newline]
  rfl

/-- The number of bytes of a line with two slashes in front and a line feed behind. -/
def lineSize (c : String) : Nat :=
  utf8Size ("//" ++ c ++ "\n").toList

/-- The size of a line counts its slashes and its line feed. -/
theorem lineSize_eq (c : String) : lineSize c = utf8Size ('/' :: '/' :: c.toList) + 1 := by
  rw [lineSize, String.toList_append, String.toList_append, utf8Size_append]
  rfl

/-- The characters of a line with its slashes, its line feed and what follows. -/
theorem toList_line (c rest : String) :
    ("//" ++ c ++ "\n" ++ rest).toList = '/' :: '/' :: (c.toList ++ '\n' :: rest.toList) := by
  simp only [String.toList_append, List.append_assoc]
  rfl

/-- A lexeme up to the end of its line, with the text behind the line. -/
theorem scan_of_lexemes_line {c rest : String} {content : Content}
    (h : lexemes ('/' :: '/' :: (c.toList ++ '\n' :: rest.toList)) =
      ⟨'/' :: '/' :: c.toList, content⟩ :: lexemes ('\n' :: rest.toList)) :
    scan ("//" ++ c ++ "\n" ++ rest) =
      locate 0 []
        (⟨'/' :: '/' :: c.toList, content⟩ :: ⟨['\n'], .skipped⟩ :: lexemes rest.toList) := by
  rw [scan, toList_line, h, lexemes_newline]

/-- Behind a line that is no bare mark the tokens only move. -/
theorem scan_line_of_ne_bare (c rest : String) (hfeed : '\n' ∉ c.toList)
    (hbare : lineKind c.toList ≠ .bare) :
    scan ("//" ++ c ++ "\n" ++ rest) =
      match lineKind c.toList with
      | .directive text =>
        ⟨.directive text, 0, lineSize c - 1, []⟩ :: (scan rest).map (shift (lineSize c))
      | _ => (scan rest).map (shift (lineSize c)) := by
  have hskipped : locate 0 [] (⟨'/' :: '/' :: c.toList, .skipped⟩ :: ⟨['\n'], .skipped⟩ ::
      lexemes rest.toList) = (scan rest).map (shift (lineSize c)) := by
    rw [← locate_eq_shift, lineSize_eq, ← Nat.zero_add (utf8Size ('/' :: '/' :: c.toList))]
    rfl
  have hdirective (text : String) :
      locate 0 [] (⟨'/' :: '/' :: c.toList, .token (.directive text)⟩ :: ⟨['\n'], .skipped⟩ ::
        lexemes rest.toList) =
      ⟨.directive text, 0, lineSize c - 1, []⟩ :: (scan rest).map (shift (lineSize c)) := by
    rw [← locate_eq_shift, lineSize_eq, Nat.add_sub_cancel,
      ← Nat.zero_add (utf8Size ('/' :: '/' :: c.toList))]
    rfl
  by_cases hmark : ∃ text, c.toList = '/' :: text
  · obtain ⟨text, htext⟩ := hmark
    rw [htext, lineKind] at hbare ⊢
    have hvisible : ¬text.all isBlank = true := fun hblank => hbare (if_pos hblank)
    have hlexemes := lexemes_marked (fun hmem => hfeed (htext ▸ List.mem_cons_of_mem _ hmem))
      hvisible rest.toList
    rw [← List.cons_append, ← htext] at hlexemes
    rw [scan_of_lexemes_line hlexemes, directiveContent, if_neg hvisible]
    cases directive? text with
    | none => exact hskipped
    | some value => exact hdirective value
  · have hkind : lineKind c.toList = .comment := by
      rw [lineKind.eq_2]
      exact fun text hc => hmark ⟨text, hc⟩
    rw [hkind, scan_of_lexemes_line (lexemes_comment hfeed (fun text hc => hmark ⟨text, hc⟩) _)]
    exact hskipped

/-- A bare mark takes the first line that is not blank with it. -/
theorem scan_line_of_bare (c rest : String) (hbare : lineKind c.toList = .bare) :
    scan ("//" ++ c ++ "\n" ++ rest) = scanBare (lineSize c) rest := by
  obtain ⟨text, htext, hall⟩ := lineKind_eq_bare hbare
  have hblank : Blank (text ++ ['\n']) :=
    List.forall_mem_append.2 ⟨hall, List.forall_mem_singleton.2 isBlank_newline⟩
  have hfront : text ++ '\n' :: rest.toList = (text ++ ['\n']) ++ rest.toList := by
    rw [List.append_assoc]
    rfl
  have htrim : trimFront (text ++ '\n' :: rest.toList) = trimFront rest.toList := by
    rw [hfront, trimFront_blank_append hblank]
  have hblanks : (text ++ '\n' :: rest.toList).takeWhile isBlank =
      (text ++ ['\n']) ++ rest.toList.takeWhile isBlank := by
    rw [hfront, List.takeWhile_append_of_pos hblank]
  have hlexemes : lexemes ('/' :: '/' :: '/' :: (text ++ '\n' :: rest.toList)) =
      ⟨('/' :: '/' :: c.toList ++ ['\n']) ++ (rest.toList.takeWhile isBlank ++ nextLine rest),
        directiveContent (nextLine rest)⟩ :: lexemes (behindNextLine rest).toList := by
    rw [lexemes_triple, htrim, hblanks, htext, behindNextLine, String.toList_ofList, nextLine]
    simp only [List.cons_append, List.append_assoc]
  have hsize : 0 + utf8Size ('/' :: '/' :: c.toList ++ ['\n'] ++
      (rest.toList.takeWhile isBlank ++ nextLine rest)) = lineSize c + nextLineEnd rest := by
    rw [Nat.zero_add, utf8Size_append, utf8Size_append, ← nextLineEnd, lineSize_eq]
    rfl
  rw [scan, toList_line, htext, List.cons_append, hlexemes, scanBare, directiveContent]
  cases directive? (nextLine rest) with
  | none =>
    dsimp only [locate]
    rw [hsize, locate_eq_shift]
  | some value =>
    dsimp only [locate]
    rw [hsize, locate_eq_shift]

/-- The tokens of a moved text do not begin at the first byte. -/
theorem map_shift_ne_cons {n : Nat} (hn : 0 < n) (ts us : List Token) (kind : Kind) (stop : Nat)
    (docs : List String) : ts.map (shift n) ≠ ⟨kind, 0, stop, docs⟩ :: us := by
  intro heq
  cases ts with
  | nil => cases heq
  | cons t ts =>
    have hstart : t.start + n = 0 := congrArg Token.start (List.cons.inj heq).1
    omega

/-- Moving tokens loses nothing. -/
theorem shift_injective (n : Nat) {t u : Token} (h : shift n t = shift n u) : t = u := by
  obtain ⟨kind, start, stop, docs⟩ := t
  obtain ⟨kind', start', stop', docs'⟩ := u
  simp only [shift, Token.mk.injEq, Nat.add_right_cancel_iff] at h ⊢
  exact h

/-- Tokens that are moved twice are moved by the sum. -/
theorem map_shift_map_shift (n k : Nat) (ts : List Token) :
    (ts.map (shift k)).map (shift n) = ts.map (shift (n + k)) := by
  rw [List.map_map]
  refine List.map_congr_left fun t _ => ?_
  simp only [Function.comp_apply, shift, Nat.add_assoc, Nat.add_comm k n]

/-- The tokens of a line behind two slashes and of the text behind that line. The tokens of the text
are its own, at moved places, if and only if the line is no directive and, if it is a bare mark, the
first line of the text that is not blank is no directive and contributes no token. -/
theorem scan_line (c rest : String) (hfeed : '\n' ∉ c.toList) :
    (scan ("//" ++ c ++ "\n" ++ rest) =
      match lineKind c.toList with
      | .comment => (scan rest).map (shift (lineSize c))
      | .directive text =>
        ⟨.directive text, 0, lineSize c - 1, []⟩ :: (scan rest).map (shift (lineSize c))
      | .bare => scanBare (lineSize c) rest) ∧
    (scan ("//" ++ c ++ "\n" ++ rest) = (scan rest).map (shift (lineSize c)) ↔
      (∀ text, lineKind c.toList ≠ .directive text) ∧
      (lineKind c.toList = .bare → directive? (nextLine rest) = none ∧
        scan rest = (scan (behindNextLine rest)).map (shift (nextLineEnd rest)))) := by
  have hpos : 0 < lineSize c := by
    rw [lineSize_eq]
    exact Nat.succ_pos _
  cases hkind : lineKind c.toList with
  | comment =>
    have hscan := scan_line_of_ne_bare c rest hfeed (by rw [hkind]; nofun)
    rw [hkind] at hscan
    exact ⟨hscan, iff_of_true hscan ⟨nofun, nofun⟩⟩
  | directive text =>
    have hscan := scan_line_of_ne_bare c rest hfeed (by rw [hkind]; nofun)
    rw [hkind] at hscan
    refine ⟨hscan, iff_of_false (fun h => ?_) fun h => h.1 text rfl⟩
    exact map_shift_ne_cons hpos _ _ _ _ _ (h.symm.trans hscan)
  | bare =>
    have hscan := scan_line_of_bare c rest hkind
    refine ⟨hscan, ?_⟩
    rw [hscan, scanBare]
    cases directive? (nextLine rest) with
    | some value =>
      refine iff_of_false (fun h => ?_) fun h => absurd (h.2 rfl).1 nofun
      exact map_shift_ne_cons hpos _ _ _ _ _ h.symm
    | none =>
      dsimp only
      rw [← map_shift_map_shift, List.map_inj_right fun _ _ => shift_injective _, eq_comm]
      exact ⟨fun h => ⟨nofun, fun _ => ⟨rfl, h⟩⟩, fun h => (h.2 rfl).2⟩

/-- The word behind a bare mark is lost. Behind an empty comment it is kept. -/
theorem scan_line_bare :
    ('\n' ∉ "/".toList ∧ lineKind "/".toList = .bare ∧
      scan "A" = [⟨.ident "A", 0, 1, []⟩, ⟨.eof, 1, 1, []⟩]) ∧
    scan ("//" ++ "/" ++ "\n" ++ "A") = [⟨.eof, 5, 5, []⟩] ∧
    scan ("//" ++ "/" ++ "\n" ++ "A") ≠ (scan "A").map (shift (lineSize "/")) ∧
    scan ("//" ++ "" ++ "\n" ++ "A") = (scan "A").map (shift (lineSize "")) :=
  ⟨by decide +kernel, (scan_line "/" "A" (by decide)).1.trans (by decide +kernel),
    fun h => absurd (((scan_line "/" "A" (by decide)).2.1 h).2 rfl).2 (by decide +kernel),
    (scan_line "" "A" (by decide)).2.2 ⟨nofun, nofun⟩⟩

end Token

end DeclLayer
