import DeclLayer.Proofs.Token.Respacing

/-!
# Flat texts

A text is flat if it has no quotes, no slashes, no brackets, no commas and no semicolons. It is cut
into words, numbers, marks and characters that begin no token, and nothing that stands apart from
it changes how it is cut (`Token.lexemes_append`).

Characters that begin no token are skipped. Between two tokens of a text they are still part of what
lies between the two, but at its ends they are not, so a flat text is its tokens from the first to
the last, `Token.kept`, with gaps around them (`Token.exists_lexemes_kept`).
-/

namespace DeclLayer

/-- Tokens other than brackets, commas and semicolons. -/
def Kind.isInner : Kind → Bool
  | .punct .lparen | .punct .rparen | .punct .lbrace | .punct .rbrace | .punct .lbracket
  | .punct .rbracket | .punct .comma | .punct .semicolon => false
  | _ => true

namespace Token

open Literal Text

/-! ## Characters -/

/-- The characters that quote, that begin comments, that bracket and that separate. -/
def structural : List Char :=
  ['"', '\'', '\x60', '/', ',', ';', '(', ')', '[', ']', '\x7b', '\x7d']

/-- A text without quotes, slashes, brackets, commas and semicolons. -/
def Flat (cs : List Char) : Prop :=
  ∀ c ∈ cs, c ∉ structural

instance (cs : List Char) : Decidable (Flat cs) :=
  List.decidableBAll (fun c => c ∉ structural) cs

/-- A character that is part of no token of a flat text, private names apart. -/
def isStray (c : Char) : Bool :=
  !(isIdentChar c || c == '.' || c == '=' || (simplePunct? c).isSome)

/-- Whether a token of a flat text begins with `c`, if `cs` follows. -/
def begins (c : Char) (cs : List Char) : Bool :=
  !isStray c || (c == '#' && cs.head?.any fun d => d.isAlpha || d == '_')

/-- A text without the characters in front of its first token. -/
def dropStray : List Char → List Char
  | [] => []
  | c :: cs => if begins c cs then c :: cs else dropStray cs

/-- A text from its first token to its last. -/
def kept (cs : List Char) : List Char :=
  dropBackWhile isStray (dropStray cs)

/-- A character that goes on with no token of a flat text. -/
def detached (c : Char) : Bool :=
  apart c && c != '>'

section

variable {c : Char} {cs r : List Char}

/-- A character that goes on with no token of a flat text goes on with no word. -/
theorem notWord_of_detached (h : detached c = true) : notWord c = true :=
  notWord_of_apart (Bool.and_eq_true_iff.1 h).1

/-- What follows a text that is kept as written goes on with no token of a flat text. -/
theorem detached_of_tight (h : tight c = true) : detached c = true := by
  refine Bool.and_eq_true_iff.2 ⟨apart_of_tight h, bne_iff_ne.2 ?_⟩
  rintro rfl
  exact absurd h (by decide)

/-- A character of a class is none that is not in it. -/
theorem beq_eq_false_of_class {p : Char → Bool} {d : Char} (hc : p c = true) (hd : p d = false) :
    (c == d) = false := by
  rw [beq_eq_false_iff_ne]
  rintro rfl
  exact Bool.false_ne_true (hd.symm.trans hc)

/-- A character that is part of no token goes on with none. -/
theorem detached_of_isStray (h : isStray c = true) : detached c = true := by
  have hne (d : Char) (hd : isStray d = false) : (c == d) = false := beq_eq_false_of_class h hd
  have hident : isIdentChar c = false := by
    rw [isStray] at h
    simp only [Bool.not_eq_true', Bool.or_eq_false_iff] at h
    exact h.1.1.1
  rw [detached, apart, hident, hne '.' rfl, hne '+' rfl, hne '-' rfl, bne, hne '>' rfl]
  rfl

/-- Blanks are part of no token. -/
theorem isStray_of_isBlank (h : isBlank c = true) : isStray c = true := by
  have hne (d : Char) (hd : isBlank d = false) : (c == d) = false := beq_eq_false_of_class h hd
  have hident : isIdentChar c = false := by
    rw [Bool.eq_false_iff]
    intro hc
    exact Bool.false_ne_true ((isBlank_of_isIdentChar hc).symm.trans h)
  rw [isStray, hident, hne '.' (by decide), hne '=' (by decide), simplePunct?_of_isBlank h]
  rfl

/-- Nothing that is detached is the next character. -/
theorem Follows.head?_ne {β : Char → Bool} (hr : Follows β r) {d : Char} (hd : β d = false) :
    r.head? ≠ some d := by
  intro heq
  exact Bool.false_ne_true (hd.symm.trans (hr d heq))

/-! ## One lexeme -/

/-- A mark of one character in a flat text is none that brackets or separates. -/
theorem isInner_of_simplePunct? {p : Punct} (hc : c ∉ structural) (hp : simplePunct? c = some p) :
    (Kind.punct p).isInner = true := by
  unfold simplePunct? at hp
  split at hp <;> first | exact absurd (by decide) hc | (cases hp <;> rfl)

/-- An identifier ends inside the text. -/
theorem identLength_le (cs : List Char) : identLength cs ≤ cs.length :=
  (List.takeWhile_prefix _).length_le

/-- A number ends inside the text. -/
theorem numberLength_le (hex : Bool) (last : Char) (cs : List Char) :
    numberLength hex last cs ≤ cs.length := by
  induction cs generalizing last with
  | nil => exact Nat.le_refl _
  | cons c cs ih =>
    rw [numberLength]
    split
    · exact Nat.succ_le_succ (ih c)
    · exact Nat.zero_le _

/-- Characters of identifiers are part of a token. -/
theorem not_isStray_of_isIdentChar (h : isIdentChar c = true) : isStray c = false := by
  rw [isStray, h, Bool.true_or, Bool.true_or, Bool.true_or, Bool.not_true]

/-- A character that is part of a token begins one, whatever follows. -/
theorem begins_of_not_isStray (h : isStray c = false) (cs : List Char) : begins c cs = true := by
  rw [begins, h, Bool.not_false, Bool.true_or]

/-- A word is no bracket, comma or semicolon. -/
theorem isInner_wordKind (word : String) : (wordKind word).isInner = true := by
  rw [wordKind]
  cases Keyword.ofText? word <;> rfl

/-- What begins an identifier can also stand in one. -/
theorem isIdentChar_of_isIdentStart (h : isIdentStart c = true) : isIdentChar c = true := by
  simp only [isIdentStart, Bool.or_eq_true] at h
  simp only [isIdentChar, Char.isAlphanum, Bool.or_eq_true]
  exact h.imp_left (.imp_left .inl)

/-- Digits can stand in an identifier. -/
theorem isIdentChar_of_isDigit (h : c.isDigit = true) : isIdentChar c = true := by
  rw [isIdentChar, Char.isAlphanum, h, Bool.or_true, Bool.true_or, Bool.true_or]

/-- What the first lexeme of a flat text is. -/
inductive Reading (c : Char) (cs : List Char) : Content × Nat → Prop where
  | token {kind : Kind} {n : Nat} : begins c cs = true → kind.isInner = true → n ≤ cs.length →
    Reading c cs (.token kind, n)
  | skipped : begins c cs = false → Reading c cs (.skipped, 0)

/-- A word or number that begins with a character of an identifier. -/
theorem Reading.of_isIdentChar {kind : Kind} {n : Nat} (hc : isIdentChar c = true)
    (hkind : kind.isInner = true) (hn : n ≤ cs.length) : Reading c cs (.token kind, n) :=
  .token (begins_of_not_isStray (not_isStray_of_isIdentChar hc) cs) hkind hn

/-- Dots are read as one mark or three. -/
theorem reading_dots (cs : List Char) : Reading '.' cs (dots cs) := by
  unfold dots
  split
  · next rest =>
    refine .token (begins_of_not_isStray rfl _) rfl ?_
    rw [List.length_cons, List.length_cons]
    omega
  · next rest _ =>
    refine .token (begins_of_not_isStray rfl _) rfl ?_
    rw [List.length_cons]
    omega
  · exact .token (begins_of_not_isStray rfl _) rfl (Nat.zero_le _)

/-- An arrow, or an equals sign. -/
theorem reading_equals (cs : List Char) : Reading '=' cs
    (if cs.head? = some '>' then (.token (.punct .arrow), 1) else (.token (.punct .eq), 0)) := by
  have hbegins : begins '=' cs = true := begins_of_not_isStray rfl cs
  split
  · next hhead =>
    obtain ⟨cs, rfl⟩ := List.head?_eq_some_iff.1 hhead
    exact .token hbegins rfl (Nat.succ_le_succ (Nat.zero_le _))
  · exact .token hbegins rfl (Nat.zero_le _)

/-- What begins no mark, no word and no number is stray. -/
theorem isStray_of_ne (hp : simplePunct? c = none) (hdot : c ≠ '.') (hequals : c ≠ '=')
    (hdigit : c.isDigit = false) (hstart : isIdentStart c = false) : isStray c = true := by
  simp only [isIdentStart, Bool.or_eq_false_iff] at hstart
  rw [isStray, isIdentChar, Char.isAlphanum, hstart.1.1, hstart.1.2, hstart.2, hdigit, hp,
    beq_false_of_ne hdot, beq_false_of_ne hequals]
  rfl

/-- A private name, or a stray character. -/
theorem reading_stray (hstray : isStray c = true) (cs : List Char) : Reading c cs
    (if c = '#' ∧ cs.head?.any (fun d => d.isAlpha || d == '_') then
      (.token (.ident (String.ofList (c :: cs.take (identLength cs)))), identLength cs)
    else (.skipped, 0)) := by
  split
  · next hprivate =>
    obtain ⟨rfl, hhead⟩ := hprivate
    refine .token ?_ rfl (identLength_le cs)
    rw [begins, hhead, beq_self_eq_true, Bool.and_true, Bool.or_true]
  · next hprivate =>
    refine .skipped ?_
    rw [begins, hstray, Bool.not_true, Bool.false_or, Bool.eq_false_iff, ne_eq, Bool.and_eq_true,
      beq_iff_eq]
    exact hprivate

/-- What the scanner reads of a flat text from a character on, the private names among the cases. -/
theorem reading_lexeme (hc : c ∉ structural) (cs : List Char) : Reading c cs (lexeme c cs) := by
  have hne (d : Char) (hd : d ∈ structural) : c ≠ d := fun heq => hc (heq ▸ hd)
  rw [lexeme]
  cases hp : simplePunct? c with
  | some p =>
    refine .token (begins_of_not_isStray ?_ cs) (isInner_of_simplePunct? hc hp) (Nat.zero_le _)
    rw [isStray, hp, Option.isSome_some, Bool.or_true, Bool.not_true]
  | none =>
    dsimp only
    rw [if_neg (hne '\x60' (by decide)), if_neg (hne '/' (by decide)),
      if_neg (not_or.2 ⟨hne '"' (by decide), hne '\'' (by decide)⟩)]
    split
    · next hdot => exact hdot ▸ reading_dots cs
    split
    · next hequals => exact hequals ▸ reading_equals cs
    split
    · next hdigit =>
      exact .of_isIdentChar (isIdentChar_of_isDigit hdigit) rfl (numberLength_le _ c cs)
    split
    · next hstart =>
      exact .of_isIdentChar (isIdentChar_of_isIdentStart hstart) (isInner_wordKind _)
        (identLength_le cs)
    · next hdot hequals hdigit hstart =>
      exact reading_stray (isStray_of_ne hp hdot hequals (Bool.eq_false_iff.2 hdigit)
        (Bool.eq_false_iff.2 hstart)) cs

/-! ## What follows a lexeme -/

/-- An identifier does not go on into what stands apart from it. -/
theorem identLength_append_detached (hr : Follows detached r) (cs : List Char) :
    identLength (cs ++ r) = identLength cs := by
  induction cs with
  | nil => exact identLength_append List.all_nil (hr.mono fun _ => notWord_of_detached)
  | cons c cs ih =>
    rw [identLength, identLength] at ih ⊢
    rw [List.cons_append, List.takeWhile_cons, List.takeWhile_cons]
    split
    · rw [List.length_cons, List.length_cons, ih]
    · rfl

/-- A number does not go on into what stands apart from it. -/
theorem numberLength_append_detached (hex : Bool) (hr : Follows detached r) (last : Char)
    (cs : List Char) : numberLength hex last (cs ++ r) = numberLength hex last cs := by
  induction cs generalizing last with
  | nil =>
    exact numberLength_append hex (hr.mono fun _ h => (Bool.and_eq_true_iff.1 h).1) last [] rfl
  | cons c cs ih => rw [List.cons_append, numberLength, numberLength, ih]

/-- Dots do not go on into what stands apart from them. -/
theorem dots_append (hr : Follows detached r) (cs : List Char) : dots (cs ++ r) = dots cs := by
  have hdot (rest : List Char) : r ≠ '.' :: rest := by
    rintro rfl
    exact hr.head?_ne (d := '.') (by decide) rfl
  have hend (rest : List Char) : ([] : List Char) ≠ '.' :: rest := nofun
  have htwo (rest : List Char) : dots ('.' :: (rest ++ r)) = dots ('.' :: rest) := by
    cases rest with
    | nil => rw [List.nil_append, dots.eq_2 r hdot, dots.eq_2 [] hend]
    | cons d rest =>
      by_cases hd : d = '.'
      · subst hd
        rfl
      · have hne (more rest : List Char) : d :: more ≠ '.' :: rest := fun heq =>
          hd (List.cons.inj heq).1
        rw [List.cons_append, dots.eq_2 _ (hne _), dots.eq_2 _ (hne _)]
  cases cs with
  | nil =>
    rw [List.nil_append, dots.eq_3 r (fun _ => hdot _) hdot, dots.eq_3 [] (fun _ => hend _) hend]
  | cons c cs =>
    by_cases hc : c = '.'
    · subst hc
      exact htwo cs
    · have hne (more rest : List Char) : c :: more ≠ '.' :: rest := fun heq =>
        hc (List.cons.inj heq).1
      rw [List.cons_append, dots.eq_3 _ (fun _ => hne _ _) (hne _),
        dots.eq_3 _ (fun _ => hne _ _) (hne _)]

/-- What is detached from the head of a text is not at its head. -/
theorem head?_append_eq_iff (hr : Follows detached r) {d : Char} (hd : detached d = false) :
    (cs ++ r).head? = some d ↔ cs.head? = some d := by
  cases cs with
  | nil => exact iff_of_false (hr.head?_ne hd) nofun
  | cons c cs => exact Iff.rfl

/-- Nothing that is detached goes on with a private name. -/
theorem any_head?_append (hr : Follows detached r) (cs : List Char) :
    ((cs ++ r).head?.any fun d => d.isAlpha || d == '_') =
      cs.head?.any fun d => d.isAlpha || d == '_' := by
  cases cs with
  | cons c cs => rfl
  | nil =>
    cases r with
    | nil => rfl
    | cons d r =>
      have hd := notWord_of_detached (hr d rfl)
      rw [notWord, Bool.not_eq_true', Bool.eq_false_iff] at hd
      refine Bool.eq_false_iff.2 fun h => hd (isIdentChar_of_isIdentStart ?_)
      rw [isIdentStart, show (d.isAlpha || d == '_') = true from h, Bool.true_or]

/-- The first lexeme of a flat text is the same with something apart behind the text. -/
theorem lexeme_append (hc : c ∉ structural) (hr : Follows detached r) (cs : List Char) :
    lexeme c (cs ++ r) = lexeme c cs := by
  have hne (d : Char) (hd : d ∈ structural) : c ≠ d := fun heq => hc (heq ▸ hd)
  have hword : (cs ++ r).take (identLength (cs ++ r)) = cs.take (identLength cs) := by
    rw [identLength_append_detached hr, List.take_append_of_le_length (identLength_le cs)]
  rw [lexeme, lexeme]
  cases simplePunct? c with
  | some p => rfl
  | none =>
    dsimp only
    have hquote := not_or.2 ⟨hne '"' (by decide), hne '\'' (by decide)⟩
    rw [if_neg (hne '\x60' (by decide)), if_neg (hne '\x60' (by decide)),
      if_neg (hne '/' (by decide)), if_neg (hne '/' (by decide)), if_neg hquote, if_neg hquote,
      dots_append hr]
    simp only [head?_append_eq_iff hr (d := '>') (by decide)]
    split
    · rfl
    split
    · rfl
    split
    · have hhex : ((cs ++ r).head? == some 'x') = (cs.head? == some 'x') := by
        rw [Bool.eq_iff_iff, beq_iff_eq, beq_iff_eq]
        exact head?_append_eq_iff hr (by decide)
      rw [hhex, numberLength_append_detached _ hr,
        List.take_append_of_le_length (numberLength_le _ c cs)]
    split
    · rw [hword, identLength_append_detached hr]
    · rw [any_head?_append hr, hword, identLength_append_detached hr]

/-- Whether a token begins does not depend on something apart behind the text. -/
theorem begins_append (hr : Follows detached r) (c : Char) (cs : List Char) :
    begins c (cs ++ r) = begins c cs := by
  rw [begins, begins, any_head?_append hr]

/-! ## Lexemes of a flat text -/

/-- The rest of a flat text is flat. -/
theorem Flat.drop (h : Flat cs) (n : Nat) : Flat (cs.drop n) :=
  fun c hc => h c (List.mem_of_mem_drop hc)

/-- What is detached from a flat text does not change how the text is cut. -/
theorem lexemes_append (hcs : Flat cs) (hr : Follows detached r) :
    lexemes (cs ++ r) = lexemes cs ++ lexemes r := by
  induction hn : cs.length using Nat.strongRecOn generalizing cs with
  | _ n ih =>
    cases cs with
    | nil => rw [lexemes_nil, List.nil_append, List.nil_append]
    | cons c cs =>
      obtain ⟨hc, hcs⟩ := List.forall_mem_cons.1 hcs
      have hreading := reading_lexeme hc cs
      rw [List.cons_append, lexemes, lexemes, lexeme_append hc hr]
      generalize lexeme c cs = reading at hreading ⊢
      have hle : reading.2 ≤ cs.length := by
        cases hreading with
        | token _ _ hle => exact hle
        | skipped => exact Nat.zero_le _
      obtain ⟨content, read⟩ := reading
      have hrest := ih (cs.drop read).length
        (by rw [← hn, List.length_drop, List.length_cons]; omega) (Flat.drop hcs read) rfl
      dsimp only at hle ⊢
      rw [List.take_append_of_le_length hle, List.drop_append_of_le_length hle, hrest,
        List.cons_append]

/-- A lexeme of a flat text is a token or a stray character. -/
inductive Lexeme.IsFlat : Lexeme → Prop where
  | token {raw : List Char} {kind : Kind} : kind.isInner = true → IsFlat ⟨raw, .token kind⟩
  | stray {c : Char} : isStray c = true → IsFlat ⟨[c], .skipped⟩

/-- A flat text is cut into inner tokens and stray characters. -/
theorem lexemes_isFlat (hcs : Flat cs) : ∀ l ∈ lexemes cs, l.IsFlat := by
  induction hn : cs.length using Nat.strongRecOn generalizing cs with
  | _ n ih =>
    cases cs with
    | nil =>
      rw [lexemes_nil]
      exact nofun
    | cons c cs =>
      obtain ⟨hc, hcs⟩ := List.forall_mem_cons.1 hcs
      have hreading := reading_lexeme hc cs
      rw [lexemes]
      generalize lexeme c cs = reading at hreading ⊢
      refine List.forall_mem_cons.2 ⟨?_, ih _ ?_ (Flat.drop hcs _) rfl⟩
      · cases hreading with
        | token _ hinner _ => exact .token hinner
        | skipped hbegins =>
          rw [begins, Bool.or_eq_false_iff, Bool.not_eq_false'] at hbegins
          exact .stray hbegins.1
      · rw [← hn, List.length_drop, List.length_cons]
        omega

/-! ## Gaps at both ends -/

/-- The characters in front of the first token are a gap. -/
theorem exists_lexemes_dropStray (hcs : Flat cs) :
    ∃ gap, (∀ l ∈ gap, l.content = .skipped) ∧ lexemes cs = gap ++ lexemes (dropStray cs) := by
  induction cs with
  | nil => exact ⟨[], nofun, rfl⟩
  | cons c cs ih =>
    obtain ⟨hc, hcs⟩ := List.forall_mem_cons.1 hcs
    rw [dropStray]
    split
    · exact ⟨[], nofun, rfl⟩
    · next hbegins =>
      obtain ⟨gap, hgap, hlexemes⟩ := ih hcs
      refine ⟨⟨[c], .skipped⟩ :: gap, List.forall_mem_cons.2 ⟨rfl, hgap⟩, ?_⟩
      have hreading := reading_lexeme hc cs
      rw [lexemes]
      generalize lexeme c cs = reading at hreading ⊢
      cases hreading with
      | token h => exact absurd h hbegins
      | skipped => exact congrArg (⟨[c], .skipped⟩ :: ·) hlexemes

/-- A text of stray characters has no token to begin with. -/
theorem dropStray_of_isStray (h : ∀ c ∈ cs, isStray c = true) : dropStray cs = [] := by
  induction cs with
  | nil => rfl
  | cons c cs ih =>
    obtain ⟨hc, hcs⟩ := List.forall_mem_cons.1 h
    have hfollows : Follows detached cs := fun d hd =>
      detached_of_isStray (hcs d (List.mem_of_mem_head? hd))
    have hbegins : begins c cs = false := by
      rw [← List.nil_append cs, begins_append hfollows, begins, hc, List.head?_nil, Option.any_none,
        Bool.and_false]
      rfl
    rw [dropStray, hbegins, ih hcs]
    rfl

/-- A flat text is flat without the characters in front of its first token. -/
theorem Flat.dropStray (h : Flat cs) : Flat (dropStray cs) := by
  induction cs with
  | nil => exact h
  | cons c cs ih =>
    rw [Token.dropStray]
    split
    · exact h
    · exact ih (List.forall_mem_cons.1 h).2

/-- A flat text is flat from its first token to its last. -/
theorem Flat.kept (h : Flat cs) : Flat (kept cs) :=
  fun c hc => h.dropStray c ((dropBackWhile_initial _).subset hc)

/-- A flat text is its tokens from the first to the last, with gaps around them. -/
theorem exists_lexemes_kept (hcs : Flat cs) :
    ∃ front back, (∀ l ∈ front, l.content = .skipped) ∧ (∀ l ∈ back, l.content = .skipped) ∧
      lexemes cs = front ++ (lexemes (kept cs) ++ back) := by
  obtain ⟨front, hfront, hlexemes⟩ := exists_lexemes_dropStray hcs
  obtain ⟨taken, htaken, hstray⟩ := exists_dropBackWhile_append isStray (dropStray cs)
  have hflat : Flat taken := fun c hc => hcs.dropStray c (htaken ▸ List.mem_append_right _ hc)
  obtain ⟨back, hback, hgap⟩ := exists_lexemes_dropStray hflat
  have hfollows : Follows detached taken := fun c hc =>
    detached_of_isStray (hstray c (List.mem_of_mem_head? hc))
  rw [dropStray_of_isStray hstray, lexemes_nil, List.append_nil] at hgap
  refine ⟨front, back, hfront, hback, ?_⟩
  have hsplit := lexemes_append hcs.kept hfollows
  rw [kept, ← htaken] at hsplit
  rw [hlexemes, hsplit, hgap, kept]

/-! ## From the first token to the last -/

/-- Without the characters in front, a text is empty or begins with a token. -/
theorem dropStray_eq_nil_or (cs : List Char) :
    dropStray cs = [] ∨ ∃ c rest, dropStray cs = c :: rest ∧ begins c rest = true := by
  induction cs with
  | nil => exact .inl rfl
  | cons c cs ih =>
    rw [dropStray]
    split
    · next hbegins => exact .inr ⟨c, cs, rfl, hbegins⟩
    · exact ih

/-- Shortening a text at its end leaves the token in front. -/
theorem dropBackWhile_cons_of_begins (h : begins c cs = true) :
    ∃ rest, dropBackWhile isStray (c :: cs) = c :: rest ∧ begins c rest = true := by
  have hcons (d : Char) (ds : List Char) (hd : isStray d = false) :
      ∃ rest, dropBackWhile isStray (d :: ds) = d :: rest := by
    rw [dropBackWhile]
    split
    · exact ⟨[], if_neg (Bool.eq_false_iff.1 hd)⟩
    · exact ⟨_, rfl⟩
  cases hc : isStray c with
  | false =>
    obtain ⟨rest, hrest⟩ := hcons c cs hc
    exact ⟨rest, hrest, begins_of_not_isStray hc rest⟩
  | true =>
    -- the character after a number sign stays, because words are not stray
    rw [begins, hc, Bool.not_true, Bool.false_or, Bool.and_eq_true] at h
    obtain ⟨hsign, hhead⟩ := h
    cases cs with
    | nil => cases hhead
    | cons d ds =>
      have hd : isStray d = false := by
        refine not_isStray_of_isIdentChar (isIdentChar_of_isIdentStart ?_)
        rw [isIdentStart, show (d.isAlpha || d == '_') = true from hhead, Bool.true_or]
      obtain ⟨rest, hrest⟩ := hcons d ds hd
      refine ⟨d :: rest, by rw [dropBackWhile, hrest], ?_⟩
      rw [begins, hsign]
      exact Bool.or_eq_true_iff.2 (.inr hhead)

/-- From the first token to the last, a text is empty or begins with a token. -/
theorem kept_eq_nil_or (cs : List Char) :
    kept cs = [] ∨ ∃ c rest, kept cs = c :: rest ∧ begins c rest = true := by
  rw [kept]
  rcases dropStray_eq_nil_or cs with hnil | ⟨c, rest, hcons, hbegins⟩
  · rw [hnil]
    exact .inl rfl
  · rw [hcons]
    obtain ⟨rest, hrest, hbegins⟩ := dropBackWhile_cons_of_begins hbegins
    exact .inr ⟨c, rest, hrest, hbegins⟩

/-- A token begins with no blank. -/
theorem not_isBlank_of_begins (h : begins c cs = true) : isBlank c = false := by
  cases hblank : isBlank c with
  | false => rfl
  | true =>
    have hsign : (c == '#') = false := beq_eq_false_of_class hblank (by decide)
    rw [begins, isStray_of_isBlank hblank, hsign] at h
    cases h

/-- Nothing is lost of a text that begins with a token and does not end with a stray character. -/
theorem kept_eq_self_iff (hne : cs ≠ []) :
    kept cs = cs ↔ (∃ c rest, cs = c :: rest ∧ begins c rest = true) ∧
      ∀ c ∈ cs.getLast?, isStray c = false := by
  constructor
  · intro h
    have hlast := getLast?_dropBackWhile (p := isStray) (dropStray cs)
    rw [← kept, h] at hlast
    rcases kept_eq_nil_or cs with hnil | hcons
    · exact absurd (h.symm.trans hnil) hne
    · rw [h] at hcons
      exact ⟨hcons, hlast⟩
  · rintro ⟨⟨c, rest, rfl, hbegins⟩, hlast⟩
    rw [kept, dropStray, if_pos hbegins, dropBackWhile_eq_self hlast]

end

end Token

end DeclLayer
