import DeclLayer.Proofs.Token.LineComment

/-!
# The spans of tokens

Where a token begins, the scanner reads the characters in front of it in one of a few ways
(`Token.ReadsToken`): each gives the kind of the token, and how many characters belong to it. The
lexemes of a source are its characters, cut into pieces, so the characters that a token was read
from stand between its two ends (`Token.standsAt_of_mem_scan`), and what is asked of the tokens is
asked of what they were read from (`Token.wellPlaced_scan`).

A comment is no token, but it is cut out of the source too, and so are the inside of a template and
the line of a directive. They stand behind the marks that open them, and end before those that close
them, at the end of the line, or with the source (`Token.CutsOut`).
-/

namespace DeclLayer

namespace Comment

open Text

/-- The text of a directive is the name and the value of an attribute that is written there. -/
theorem directive?_eq_some {content : List Char} {text : String}
    (h : directive? content = some text) :
    ∃ (name : String) (front value back : List Char), (name = "path" ∨ name = "types") ∧
      content = front ++ (name.toList ++ ['=', '"'] ++ (value ++ '"' :: back)) ∧
      text = name ++ ":" ++ String.ofList value := by
  have hattribute {name value : String} (h : attribute? name content = some value) :
      ∃ (front inner back : List Char),
        content = front ++ (name.toList ++ ['=', '"'] ++ (inner ++ '"' :: back)) ∧
          value = String.ofList inner := by
    rw [attribute?] at h
    split at h
    · cases h
    · next rest hrest =>
      obtain ⟨inner, hinner, rfl⟩ := Option.map_eq_some_iff.1 h
      obtain ⟨front, hfront⟩ := afterFirst?_eq_some hrest
      obtain ⟨back, rfl⟩ := before?_eq_some hinner
      exact ⟨front, inner, back, hfront, rfl⟩
  rw [directive?] at h
  split at h
  · split at h
    · next path hpath =>
      cases h
      obtain ⟨front, inner, back, hcontent, rfl⟩ := hattribute hpath
      exact ⟨"path", front, inner, back, .inl rfl, hcontent, rfl⟩
    · obtain ⟨value, hvalue, rfl⟩ := Option.map_eq_some_iff.1 h
      obtain ⟨front, inner, back, hcontent, rfl⟩ := hattribute hvalue
      exact ⟨"types", front, inner, back, .inr rfl, hcontent, rfl⟩
  · cases h

end Comment

/-- The text that a token takes over from the source as it is: a name, a keyword or a number. -/
def Kind.spelling? : Kind → Option String
  | .ident text | .number text => some text
  | .keyword k => some k.text
  | _ => none

namespace Token

open Text Literal

/-! ## What tokens are read from -/

/-- The tokens that can be read where a text begins with the character `c` in front of `cs`, each
with the number of characters of `cs` that belong to it. -/
inductive ReadsToken (c : Char) (cs : List Char) : Kind → Nat → Prop where
  | punct (p : Punct) (n : Nat) : ReadsToken c cs (.punct p) n
  | string (value : String) (n : Nat) : ReadsToken c cs (.string value) n
  | directive {text : String} {n : Nat} (front content : List Char) :
    c :: cs.take n = front ++ content → Comment.directive? content = some text →
    ReadsToken c cs (.directive text) n
  | template : c = '\x60' →
    ReadsToken c cs (.template (String.ofList (cs.take (Literal.template 0 cs).1)))
      ((Literal.template 0 cs).1 + if (Literal.template 0 cs).2 then 1 else 0)
  | number (n : Nat) : ReadsToken c cs (.number (String.ofList (c :: cs.take n))) n
  | ident :
    (isIdentStart c = true ∨ c = '#' ∧ (cs.head?.any fun d => d.isAlpha || d == '_') = true) →
    ReadsToken c cs (.ident (String.ofList (c :: cs.take (identLength cs)))) (identLength cs)
  | keyword (k : Keyword) : isIdentStart c = true →
    k.text = String.ofList (c :: cs.take (identLength cs)) →
    ReadsToken c cs (.keyword k) (identLength cs)

/-- Behind a slash stand a directive or nothing that belongs to a token. -/
theorem readsToken_slashes {cs : List Char} {kind : Kind} (h : (slashes cs).1 = .token kind) :
    ReadsToken '/' cs kind (slashes cs).2 := by
  unfold slashes at h ⊢
  split at h
  · next cs =>
    dsimp only at h ⊢
    split at h
    · next text htext =>
      cases h
      refine .directive ('/' :: '/' :: '/' :: cs.takeWhile isBlank) _ ?_ htext
      rw [Nat.add_assoc, Nat.add_comm 2, List.take_succ_cons, List.take_succ_cons, List.take_add,
        take_length_takeWhile, take_length_takeWhile]
      rfl
    · cases h
  · cases h
  · dsimp only at h
    split at h
    · split at h <;> cases h
    · cases h
  · cases h
    exact .punct _ _

/-- What dots are read as has their spelling. -/
theorem readsToken_dots {cs : List Char} {kind : Kind} (h : (dots cs).1 = .token kind) (c : Char)
    (ds : List Char) : ReadsToken c ds kind (dots cs).2 := by
  unfold dots at h ⊢
  split at h <;> (cases h; exact .punct _ _)

/-- A token is read in one of these ways. -/
theorem readsToken_lexeme {c : Char} {cs : List Char} {kind : Kind}
    (h : (lexeme c cs).1 = .token kind) : ReadsToken c cs kind (lexeme c cs).2 := by
  generalize hread : lexeme c cs = read at h ⊢
  rw [lexeme] at hread
  cases hp : simplePunct? c with
  | some p =>
    rw [hp] at hread
    subst hread
    cases h
    exact .punct p 0
  | none =>
    rw [hp] at hread
    dsimp only at hread
    -- The scanner decides on the first character, in this order.
    split at hread
    · next hc =>
      subst hread
      cases h
      exact .template hc
    split at hread
    · subst hread
      exact readsToken_dots h c cs
    split at hread
    · split at hread <;> (subst hread; cases h; exact .punct _ _)
    split at hread
    · next hc =>
      subst hread
      subst hc
      exact readsToken_slashes h
    split at hread
    · subst hread
      cases h
      exact .string _ _
    split at hread
    · subst hread
      cases h
      exact .number _
    split at hread
    · next hstart =>
      subst hread
      rcases wordKind_cases (String.ofList (c :: cs.take (identLength cs))) with hw | ⟨k, hw, hk⟩
      · rw [hw] at h
        cases h
        exact .ident (.inl hstart)
      · rw [hw] at h
        cases h
        exact .keyword k hstart hk
    split at hread
    · next hprivate =>
      subst hread
      cases h
      exact .ident (.inr hprivate)
    · subst hread
      cases h

namespace ReadsToken

variable {c : Char} {cs : List Char} {kind : Kind} {n : Nat}

/-- No token that is read from a text is the end. -/
theorem ne_eof (h : ReadsToken c cs kind n) : kind ≠ .eof := by
  cases h <;> nofun

/-- A token with a fixed spelling is read from that spelling. -/
theorem spelled {text : String} (h : ReadsToken c cs kind n) (htext : kind.spelling? = some text) :
    text.toList = c :: cs.take n := by
  cases h with
  | number | ident =>
    cases htext
    exact String.toList_ofList
  | keyword k _ hk =>
    cases htext
    rw [hk, String.toList_ofList]
  | _ => cases htext

/-- A template ends with the backtick that closes it, or with the text. -/
theorem template_cases {raw : String} (h : ReadsToken c cs (.template raw) n) :
    (isClosed (c :: cs.take n) = true ∧ c :: cs.take n = '\x60' :: (raw.toList ++ ['\x60'])) ∨
    (isClosed (c :: cs.take n) = false ∧ c :: cs.take n = '\x60' :: raw.toList ∧
      cs.take n = cs) := by
  cases h with
  | template hc =>
    subst hc
    rw [String.toList_ofList]
    cases hclosed : (Literal.template 0 cs).2 with
    | true =>
      obtain ⟨body, rest, hcs, hlength⟩ := template_closes hclosed
      have htake : cs.take ((Literal.template 0 cs).1 + 1) =
          cs.take (Literal.template 0 cs).1 ++ ['\x60'] := by
        rw [hlength, hcs, List.take_length_add_append, List.take_left]
        rfl
      exact .inl ⟨template_take hclosed, congrArg (_ :: ·) htake⟩
    | false =>
      have hall : cs.take (Literal.template 0 cs).1 = cs := by
        rw [length_of_template_open hclosed, List.take_length]
      refine .inr ⟨?_, rfl, hall⟩
      show (Literal.template 0 (cs.take (Literal.template 0 cs).1)).2 = false
      rw [hall, hclosed]

end ReadsToken

/-! ## Where the lexemes of a source stand -/

/-- The lexemes of a source have all its bytes. -/
theorem utf8Size_lexemes (source : String) :
    utf8Size (rawText (lexemes source.toList)) = source.utf8ByteSize :=
  (congrArg utf8Size (flatMap_raw_lexemes _)).trans (utf8Size_toList source)

/-- The lexemes behind some of them are those of the text behind. -/
theorem lexemes_rawText {cs : List Char} {ms ls : List Lexeme} (h : lexemes cs = ms ++ ls) :
    lexemes (rawText ls) = ls ∧ cs = rawText ms ++ rawText ls := by
  have hcs : cs = rawText ms ++ rawText ls := by
    rw [← rawText_append, ← h]
    exact (flatMap_raw_lexemes cs).symm
  refine ⟨?_, hcs⟩
  clear hcs
  -- The first of the lexemes in front is cut off, and with it the characters that it was read from.
  induction ms generalizing cs with
  | nil =>
    rw [List.nil_append] at h
    rw [← h]
    exact congrArg lexemes (flatMap_raw_lexemes cs)
  | cons m ms ih =>
    cases cs with
    | nil =>
      rw [lexemes_nil] at h
      cases h
    | cons c cs =>
      rw [lexemes] at h
      exact ih (List.cons.inj h).2

/-- A lexeme is read where it stands. -/
theorem exists_read {cs : List Char} {ms behind : List Lexeme} {l : Lexeme}
    (h : lexemes cs = ms ++ l :: behind) :
    ∃ c more, rawText (l :: behind) = c :: more ∧
      l = ⟨c :: more.take (lexeme c more).2, (lexeme c more).1⟩ := by
  obtain ⟨hlexemes, -⟩ := lexemes_rawText h
  cases hraw : rawText (l :: behind) with
  | nil =>
    rw [hraw, lexemes_nil] at hlexemes
    cases hlexemes
  | cons c more =>
    rw [hraw, lexemes] at hlexemes
    exact ⟨c, more, rfl, (List.cons.inj hlexemes).1.symm⟩

/-- A token of a source is read where it begins, or is the end of the source. -/
theorem mem_scan_cases {source : String} {t : Token} (h : t ∈ scan source) :
    (∃ before c cs n, source.toList = before ++ c :: cs ∧ ReadsToken c cs t.kind n ∧
      t.start = utf8Size before ∧ t.stop = utf8Size before + utf8Size (c :: cs.take n)) ∨
    (t.kind = .eof ∧ t.start = source.utf8ByteSize ∧ t.stop = source.utf8ByteSize) := by
  rcases mem_locate_cases h with
    ⟨ms, l, behind, hls, hcontent, hstart, hstop⟩ | ⟨hkind, hstart, hstop⟩
  · obtain ⟨c, cs, hraw, rfl⟩ := exists_read hls
    obtain ⟨-, hsource⟩ := lexemes_rawText hls
    rw [hraw] at hsource
    rw [Nat.zero_add] at hstart
    exact .inl ⟨rawText ms, c, cs, _, hsource, readsToken_lexeme hcontent, hstart, hstart ▸ hstop⟩
  · rw [Nat.zero_add, utf8Size_lexemes] at hstart
    exact .inr ⟨hkind, hstart, hstop.trans hstart⟩

/-- No lexeme is the end. -/
theorem kind?_ne_eof {l : Lexeme} {cs : List Char} (h : l ∈ lexemes cs) : l.kind? ≠ some .eof := by
  obtain ⟨ms, behind, hls⟩ := List.append_of_mem h
  obtain ⟨c, cs, -, rfl⟩ := exists_read hls
  rw [Lexeme.kind?]
  intro hkind
  split at hkind
  · next kind hcontent =>
    cases hkind
    exact (readsToken_lexeme hcontent).ne_eof rfl
  · cases hkind

/-! ## Well placed tokens -/

/-- Tokens that lie in a source one behind the other and say what stands there. -/
structure WellPlaced (source : String) (ts : List Token) : Prop where
  /-- The end of the source is the last token, and no other. -/
  ends : ∃ front docs, ts = front ++ [⟨.eof, source.utf8ByteSize, source.utf8ByteSize, docs⟩] ∧
    ∀ t ∈ front, t.kind ≠ .eof
  start_lt : ∀ t ∈ ts, t.kind ≠ .eof → t.start < t.stop
  ordered : ts.Pairwise fun t u => t.stop ≤ u.start
  valid : ∀ t ∈ ts, ValidRange source t.start t.stop
  /-- Names, keywords and numbers are spelled as they stand in the source. -/
  spelled : ∀ t ∈ ts, ∀ text, t.kind.spelling? = some text →
    slice source.toList t.start t.stop = text.toList
  /-- A template that is closed stands between two backticks. Another one goes on to the end. -/
  template : ∀ t ∈ ts, ∀ raw, t.kind = .template raw →
    (isClosed (slice source.toList t.start t.stop) = true →
      slice source.toList t.start t.stop = '\x60' :: (raw.toList ++ ['\x60'])) ∧
    (isClosed (slice source.toList t.start t.stop) = false →
      slice source.toList t.start t.stop = '\x60' :: raw.toList ∧ t.stop = source.utf8ByteSize)
  /-- A directive has the name and the value of an attribute that stands in the source. -/
  directive : ∀ t ∈ ts, ∀ text, t.kind = .directive text →
    ∃ (name : String) (front value back : List Char), (name = "path" ∨ name = "types") ∧
      slice source.toList t.start t.stop =
        front ++ (name.toList ++ ['=', '"'] ++ (value ++ '"' :: back)) ∧
      text = name ++ ":" ++ String.ofList value

/-- What stands at the place of a token, from the way it was read. -/
theorem standsAt_of_mem_scan {source : String} {t : Token} (h : t ∈ scan source) :
    (∃ c cs n, StandsAt source t.start t.stop (c :: cs.take n) ∧ ReadsToken c cs t.kind n ∧
      (cs.take n = cs → t.stop = source.utf8ByteSize)) ∨
    (t.kind = .eof ∧ StandsAt source t.start t.stop []) := by
  rcases mem_scan_cases h with
    ⟨before, c, cs, n, hsource, hread, hstart, hstop⟩ | ⟨hkind, hstart, hstop⟩
  · refine .inl ⟨c, cs, n, ?_, hread, fun hall => ?_⟩
    · have hsplit : source.toList = before ++ (c :: cs.take n ++ cs.drop n) := by
        rw [hsource, List.cons_append, List.take_append_drop]
      rw [hstart, hstop]
      exact standsAt_of_append hsplit
    · rw [hstop, hall, ← utf8Size_append, ← hsource, utf8Size_toList]
  · have hsplit : source.toList = source.toList ++ ([] ++ []) := by
      rw [List.append_nil, List.append_nil]
    have hstands := standsAt_of_append hsplit
    rw [utf8Size_toList, utf8Size_nil, Nat.add_zero] at hstands
    rw [hstart, hstop]
    exact .inr ⟨hkind, hstands⟩

/-- The tokens of a source are well placed. -/
theorem wellPlaced_scan (source : String) : WellPlaced source (scan source) where
  ends := by
    obtain ⟨front, docs, hkinds, hfront⟩ := locate_append 0 [] (lexemes source.toList)
    have hscan := hfront []
    rw [List.append_nil, locate, Nat.zero_add, utf8Size_lexemes] at hscan
    refine ⟨front, docs, hscan, fun t ht heof => ?_⟩
    have hmem : t.kind ∈ (lexemes source.toList).filterMap Lexeme.kind? :=
      hkinds ▸ List.mem_map_of_mem ht
    obtain ⟨l, hl, hkind⟩ := List.mem_filterMap.1 hmem
    exact kind?_ne_eof hl (heof ▸ hkind)
  start_lt t ht hkind := by
    rcases mem_scan_cases ht with ⟨before, c, cs, n, -, -, hstart, hstop⟩ | ⟨heof, -⟩
    · have hpos := c.utf8Size_pos
      rw [utf8Size_cons] at hstop
      omega
    · exact absurd heof hkind
  ordered := pairwise_locate 0 [] _
  valid t ht := by
    rcases standsAt_of_mem_scan ht with ⟨c, cs, n, hstands, -⟩ | ⟨-, hstands⟩
    · exact hstands.toValidRange
    · exact hstands.toValidRange
  spelled t ht text htext := by
    rcases standsAt_of_mem_scan ht with ⟨c, cs, n, hstands, hread, -⟩ | ⟨heof, -⟩
    · rw [hstands.slice_eq, hread.spelled htext]
    · rw [heof] at htext
      cases htext
  template t ht raw hraw := by
    rcases standsAt_of_mem_scan ht with ⟨c, cs, n, hstands, hread, hend⟩ | ⟨heof, -⟩
    · rw [hraw] at hread
      rw [hstands.slice_eq]
      rcases hread.template_cases with ⟨hclosed, htext⟩ | ⟨hopen, htext, hall⟩
      · rw [hclosed]
        exact ⟨fun _ => htext, fun hopen => absurd hopen (by decide)⟩
      · rw [hopen]
        exact ⟨fun hclosed => absurd hclosed (by decide), fun _ => ⟨htext, hend hall⟩⟩
    · cases heof.symm.trans hraw
  directive t ht text htext := by
    rcases standsAt_of_mem_scan ht with ⟨c, cs, n, hstands, hread, hend⟩ | ⟨heof, -⟩
    · rw [htext] at hread
      rw [hstands.slice_eq]
      cases hread with
      | directive front content hfront hdirective =>
        obtain ⟨name, more, value, back, hname, rfl, rfl⟩ := Comment.directive?_eq_some hdirective
        refine ⟨name, front ++ more, value, back, hname, ?_, rfl⟩
        simp only [hfront, List.append_assoc]
    · cases heof.symm.trans htext

/-! ## Texts that the scanner cuts out -/

/-- The texts that are cut out of what is left of a source: behind its opening marks, the body of a
comment, the line of a directive or the inside of a template. The last argument is what the lexeme
becomes. -/
inductive CutsOut : List Char → List Char → List Char → Content → Prop where
  | comment (cs : List Char) : CutsOut ('/' :: '*' :: cs) ['/', '*'] (Comment.blockBody cs)
    (blockContent (Comment.blockBody cs))
  | directive (cs : List Char) : CutsOut ('/' :: '/' :: '/' :: cs)
    ('/' :: '/' :: '/' :: cs.takeWhile isBlank) ((trimFront cs).takeWhile (· != '\n'))
    (directiveContent ((trimFront cs).takeWhile (· != '\n')))
  | template (cs : List Char) : CutsOut ('\x60' :: cs) ['\x60']
    (cs.take (Literal.template 0 cs).1)
    (.token (.template (String.ofList (cs.take (Literal.template 0 cs).1))))

namespace CutsOut

variable {rest marks text : List Char} {content : Content}

/-- What is cut out stands behind its marks. -/
theorem exists_append (h : CutsOut rest marks text content) :
    ∃ behind, rest = marks ++ (text ++ behind) := by
  cases h with
  | comment cs => exact ⟨_, congrArg (_ :: _ :: ·) (List.take_append_drop _ cs).symm⟩
  | directive cs =>
    refine ⟨(trimFront cs).dropWhile (· != '\n'), ?_⟩
    rw [List.takeWhile_append_dropWhile, trimFront, List.cons_append, List.cons_append,
      List.cons_append, List.takeWhile_append_dropWhile]
  | template cs => exact ⟨_, congrArg (_ :: ·) (List.take_append_drop _ cs).symm⟩

/-- The first lexeme is the token from whose text something is cut out. -/
theorem content_eq {c : Char} {cs : List Char} (h : CutsOut (c :: cs) marks text content) :
    (lexeme c cs).1 = content := by
  cases h with
  | comment cs => exact (slashes_block cs).1
  | directive cs => exact (slashes_directive cs).1
  | template cs => exact congrArg Prod.fst (lexeme_template cs)

end CutsOut

/-- A text that a lexeme is made from is cut out between characters of the source. -/
theorem standsAt_of_cutsOut {source : String} {ms behind : List Lexeme} {l : Lexeme}
    {marks text : List Char} {content : Content} (hls : lexemes source.toList = ms ++ l :: behind)
    (h : CutsOut (rawText (l :: behind)) marks text content) :
    l.content = content ∧ StandsAt source (utf8Size (rawText ms ++ marks))
      (utf8Size (rawText ms ++ marks) + utf8Size text) text := by
  obtain ⟨-, hsource⟩ := lexemes_rawText hls
  obtain ⟨more, hmore⟩ := h.exists_append
  constructor
  · obtain ⟨c, cs, hraw, rfl⟩ := exists_read hls
    rw [hraw] at h
    exact h.content_eq
  · have hsplit : source.toList = rawText ms ++ marks ++ (text ++ more) := by
      rw [hsource, hmore, List.append_assoc]
    exact standsAt_of_append hsplit

end Token

end DeclLayer
