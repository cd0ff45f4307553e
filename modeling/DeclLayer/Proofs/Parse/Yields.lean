import DeclLayer.Proofs.Parse.Progress
import DeclLayer.Proofs.Parse.Speculation
import DeclLayer.Proofs.Token.Spans

/-!
# What parsers answer

A parser only sees what is ahead of it, and leaves a later place in the same tokens
(`Cursor.Within`). So what holds of every token of a source holds of all that a parser reads, and a
condition on the answer of a piece of the grammar is put together from conditions on the answers of
its parts: `Parser.Yields` says that from every place in some tokens a parser that succeeds answers
something of a kind.

All words among the tokens of a source are spelled like words (`Token.wordsOnly_scan`), hence an
identifier that is read is a word, and what is read after it with dots are words as well
(`Yields.identifier`, `Yields.qualifiedTail`).
-/

namespace DeclLayer

/-! ## Words among tokens -/

/-- The word that a token is: an identifier, or a keyword in its spelling. -/
def Kind.word? : Kind → Option String
  | .ident name => some name
  | .keyword k => some k.text
  | _ => none

namespace Token

open Literal

/-- All words among some tokens are spelled like words. -/
def WordsOnly (ks : List Kind) : Prop :=
  ∀ kind ∈ ks, ∀ w, kind.word? = some w → isWord w = true

/-- If all words among some tokens are words, so are those behind the first token. -/
theorem WordsOnly.behind {kind : Kind} {ks : List Kind} (h : WordsOnly (kind :: ks)) :
    WordsOnly ks :=
  fun kind hkind => h kind (List.mem_cons_of_mem _ hkind)

/-- The characters that an identifier takes are the identifier characters in front. -/
theorem take_identLength (cs : List Char) : cs.take (identLength cs) = cs.takeWhile isIdentChar :=
  (List.prefix_iff_eq_take.1 (List.takeWhile_prefix isIdentChar)).symm

/-- The identifier characters after the first character of a word belong to it. -/
theorem isWord_ident {c : Char} {cs : List Char}
    (h : isIdentStart c = true ∨ c = '#' ∧ cs.head?.any (fun d => d.isAlpha || d == '_') = true) :
    isWord (String.ofList (c :: cs.take (identLength cs))) = true := by
  have hall : (cs.takeWhile isIdentChar).all isIdentChar = true := List.all_takeWhile
  rw [isWord, String.toList_ofList, take_identLength]
  simp only [hall, Bool.and_true, Bool.or_eq_true, Bool.and_eq_true, beq_iff_eq]
  refine h.imp_right fun hprivate => ⟨hprivate.1, ?_⟩
  have hhead := hprivate.2
  cases cs with
  | nil => cases hhead
  | cons d cs =>
    have hd : isIdentChar d = true := by
      have hstart : (d.isAlpha || d == '_') = true := hhead
      rw [isIdentChar, Char.isAlphanum, Bool.or_right_comm d.isAlpha, hstart, Bool.true_or,
        Bool.true_or]
    rw [List.takeWhile_cons, if_pos hd]
    exact hhead

/-- What is read as a word is spelled like one. -/
theorem ReadsToken.isWord {c : Char} {cs : List Char} {kind : Kind} {n : Nat} {w : String}
    (h : ReadsToken c cs kind n) (hw : kind.word? = some w) : isWord w = true := by
  cases h with
  | ident hstart =>
    cases hw
    exact isWord_ident hstart
  | keyword k =>
    cases hw
    exact isWord_keyword k
  | _ => cases hw

/-- The words among the tokens of a source are spelled like words. -/
theorem wordsOnly_scan (source : String) : WordsOnly ((scan source).map Token.kind) := by
  intro kind hkind w hw
  obtain ⟨t, ht, rfl⟩ := List.mem_map.1 hkind
  rcases mem_scan_cases ht with ⟨before, c, cs, n, -, hread, -⟩ | ⟨heof, -⟩
  · exact hread.isWord hw
  · rw [heof] at hw
    cases hw

end Token

/-! ## Dotted names -/

/-- Words, each with a dot before it. -/
def Token.IsTail (tail : String) : Prop :=
  ∃ ws : List String, (∀ w ∈ ws, Literal.isWord w = true) ∧ tail = String.join (ws.map ("." ++ ·))

namespace Token.IsTail

open Literal

/-- No words at all are the rest of a dotted name. -/
theorem empty : IsTail "" := ⟨[], nofun, rfl⟩

/-- A dot and a word in front of the rest of a dotted name. -/
theorem cons {w tail : String} (hw : isWord w = true) (h : IsTail tail) :
    IsTail ("." ++ w ++ tail) := by
  obtain ⟨ws, hws, rfl⟩ := h
  exact ⟨w :: ws, List.forall_mem_cons.2 ⟨hw, hws⟩, by rw [List.map_cons, String.join_cons]⟩

/-- A word and words with dots behind it are a dotted name. -/
theorem isDotted {w tail : String} (h : IsTail tail) (hw : isWord w = true) :
    isDotted (w ++ tail) = true := by
  obtain ⟨ws, hws, rfl⟩ := h
  rw [← joinWith_cons]
  exact isDotted_joinWith (List.cons_ne_nil _ _) (List.forall_mem_cons.2 ⟨hw, hws⟩)

/-- Without its first dot, a tail is a dotted name, unless it is empty. -/
theorem isDotted_drop {tail : String} (h : IsTail tail) :
    Token.isDotted (String.ofList (tail.toList.drop 1)) = true ∨ tail = "" := by
  obtain ⟨ws, hws, rfl⟩ := h
  cases ws with
  | nil => exact .inr rfl
  | cons w ws =>
    obtain ⟨hw, hws⟩ := List.forall_mem_cons.1 hws
    have hdrop : String.ofList ((String.join ((w :: ws).map ("." ++ ·))).toList.drop 1) =
        w ++ String.join (ws.map ("." ++ ·)) := by
      rw [List.map_cons, String.join_cons, ← String.toList_inj, String.toList_ofList,
        String.append_assoc, String.toList_append]
      rfl
    exact .inl (hdrop ▸ isDotted ⟨ws, hws, rfl⟩ hw)

end Token.IsTail

namespace Parser

open Token

/-- What is read after the first word of a dotted name is the rest of one. -/
theorem isTail_dottedTail {ts : List Token} (h : WordsOnly (ts.map Token.kind)) :
    IsTail (dottedTail ts).1 := by
  fun_induction dottedTail ts with
  | case1 dot word ts hdot name hword tail rest heq ih =>
    have htail := ih h.behind.behind
    rw [heq] at htail
    have hname := h.behind word.kind List.mem_cons_self name (by rw [hword]; rfl)
    exact htail.cons hname
  | case2 dot word ts hdot k hword tail rest heq ih =>
    have htail := ih h.behind.behind
    rw [heq] at htail
    exact htail.cons (isWord_keyword k)
  | case3 | case4 | case5 => exact .empty

/-- Nothing is read behind a dot only if no word follows it. -/
theorem word?_of_dottedTail {c : Cursor} (hlast : c.last.kind = .eof)
    (hdot : c.kindAt 0 = .punct .dot) (h : (dottedTail c.rest).1 = "") :
    (c.next.kindAt 0).word? = none := by
  have hne (front w tail : String) (hfront : front.length = 1) : front ++ w ++ tail ≠ "" := by
    intro heq
    have hlength := congrArg String.length heq
    rw [String.length_append, String.length_append, hfront] at hlength
    simp at hlength
  rw [Cursor.kindAt] at hdot
  rw [Cursor.kindAt, Cursor.next]
  cases hrest : c.rest with
  | nil =>
    rw [hrest] at hdot
    cases hlast.symm.trans hdot
  | cons dot behind =>
    rw [hrest] at hdot h
    cases behind with
    | nil =>
      show (c.last.kind).word? = none
      rw [hlast]
      rfl
    | cons word ts =>
      have hdot : dot.kind = .punct .dot := hdot
      rw [dottedTail, if_pos hdot] at h
      show word.kind.word? = none
      split at h
      · exact absurd h (hne _ _ _ rfl)
      · exact absurd h (hne _ _ _ rfl)
      · next hident hkeyword =>
        cases hkind : word.kind with
        | ident name => exact absurd hkind (hident name)
        | keyword k => exact absurd hkind (hkeyword k)
        | _ => rfl

end Parser

/-! ## Places -/

/-- A place in tokens of the given kinds. -/
structure Cursor.Within (ks : List Kind) (c : Cursor) : Prop where
  suffix : c.rest.map Token.kind ++ [.eof] <:+ ks
  last : c.last.kind = .eof

namespace Cursor.Within

variable {ks : List Kind} {c c' : Cursor} {kind : Kind}

/-- The first place of a source is within its tokens. -/
theorem start (source : String) :
    (Cursor.start source).Within ((Token.scan source).map Token.kind) := by
  have hscan := Token.map_kind_locate 0 [] (Token.lexemes source.toList)
  have hkinds : (Cursor.start source).rest.map Token.kind ++ [.eof] =
      (Token.scan source).map Token.kind := by
    rw [Cursor.start, Token.scan, List.map_dropLast, hscan, List.dropLast_concat]
  exact ⟨hkinds ▸ List.suffix_rfl, start_last source⟩

/-- A later place is within the same tokens. -/
theorem passes {n : Nat} (h : c.Within ks) (hpasses : c.Passes n c') : c'.Within ks where
  suffix := by
    obtain ⟨front, hfront⟩ := hpasses.suffix
    refine List.IsSuffix.trans ⟨front.map Token.kind, ?_⟩ h.suffix
    rw [← hfront, List.map_append, List.append_assoc]
  last := by rw [hpasses.last_eq, h.last]

/-- The next place is within the same tokens. -/
theorem next (h : c.Within ks) : c.next.Within ks :=
  h.passes (passes_next (Nat.zero_le _) (Nat.zero_le 1))

/-- Every kind seen from a place is among the tokens. -/
theorem kindAt_mem (h : c.Within ks) (n : Nat) : c.kindAt n ∈ ks := by
  refine h.suffix.subset ?_
  rw [kindAt, List.getD_eq_getElem?_getD]
  cases hn : c.rest[n]? with
  | none =>
    rw [Option.getD_none, h.last]
    exact List.mem_append_right _ (List.mem_singleton.2 rfl)
  | some t => exact List.mem_append_left _ (List.mem_map_of_mem (List.mem_of_getElem? hn))

/-- A token that is found ahead is followed by what is ahead of the next place. -/
theorem kinds_eq (h : c.Within ks) (hkind : c.kindAt 0 = kind) (hne : kind ≠ .eof) :
    c.rest.map Token.kind = kind :: c.next.rest.map Token.kind := by
  subst hkind
  have hahead := length_pos_of_kindAt h.last hne
  cases hrest : c.rest with
  | nil =>
    rw [hrest] at hahead
    cases hahead
  | cons t ts =>
    rw [List.map_cons, kindAt, Cursor.next, hrest]
    rfl

/-- The tokens ahead of a place begin with the current one. -/
theorem exists_kinds_eq (h : c.Within ks) :
    ∃ back, c.rest.map Token.kind ++ [.eof] = c.kindAt 0 :: back := by
  rw [kindAt]
  cases c.rest with
  | nil => exact ⟨[], by rw [List.getD_nil, h.last]; rfl⟩
  | cons t ts => exact ⟨_, rfl⟩

end Cursor.Within

namespace Parser

variable {α β : Type} {ks : List Kind} {p : Parser α} {f : α → Parser β} {V : α → Prop}
  {W : β → Prop}

/-- From every place in tokens of the given kinds, a parser that succeeds answers something that
satisfies a condition, and leaves a place in the same tokens. -/
def Yields (ks : List Kind) (p : Parser α) (V : α → Prop) : Prop :=
  ∀ c : Cursor, c.Within ks → Ensures p c fun a c' => c'.Within ks ∧ V a

/-- Any answer. -/
def Anything {α : Type} (_ : α) : Prop := True

namespace Yields

/-! ## Chains -/

/-- An answer without reading. -/
theorem pure {a : α} (h : V a) : Yields ks (Pure.pure a) V :=
  fun _ hc => .pure ⟨hc, h⟩

/-- A parser after another one may rely on what is known of the answer of the first. -/
theorem bind (hp : Yields ks p V) (hf : ∀ a, V a → Yields ks (f a) W) : Yields ks (p >>= f) W :=
  fun c hc => .bind ((hp c hc).mono fun a c' h => hf a h.2 c' h.1)

/-- A failure answers nothing. -/
theorem fail {cause : SyntaxCause} : Yields ks (fail cause) V :=
  fun _ _ => .refused rfl

/-- Both branches of a choice answer something of the kind. -/
theorem ite {P : Prop} [Decidable P] {q : Parser α} (hp : Yields ks p V) (hq : Yields ks q V) :
    Yields ks (if P then p else q) V := by
  split
  · exact hp
  · exact hq

/-- Nothing has to be known of an answer that is not used, only that the parser moves forward. -/
theorem forward (h : ∀ n, Agrees 0 n 0 p p) : Yields ks p Anything := by
  intro c hc a c' ha
  have hreaches := (h _ c hc.last (Nat.zero_le _) (Nat.lt_succ_self _)).2
  rw [ha] at hreaches
  exact ⟨hc.passes hreaches, trivial⟩

/-- Nothing is known of what is only looked at. -/
theorem look (h : Agrees.Looks p) : Yields ks p Anything := by
  intro c hc a c' ha
  obtain ⟨b, hb⟩ := h c
  cases ha.symm.trans hb
  exact ⟨hc, trivial⟩

/-- A loop whose answer is not used. -/
theorem loop {P : Nat → Parser α} (hP : ∀ t, Agrees 0 t 0 (P t) (P t))
    (hf : ∀ a, Yields ks (f a) W) : Yields ks (turns >>= fun t => P t >>= f) W := by
  intro c hc
  refine .bind (.step rfl (.bind ?_))
  intro a c' ha
  have hreaches := (hP _ c hc.last (Nat.zero_le _) (Nat.lt_succ_self _)).2
  rw [ha] at hreaches
  exact hf a c' (hc.passes hreaches)

/-- Nothing is asked of the number of turns. -/
theorem turns : Yields ks Parser.turns Anything :=
  fun _ hc => .step rfl ⟨hc, trivial⟩

/-! ## Single tokens -/

/-- The current token is among the tokens. -/
theorem peek : Yields ks Parser.peek (· ∈ ks) :=
  fun _ hc => .step rfl ⟨hc, hc.kindAt_mem 0⟩

/-- Passing a token answers nothing that could be of a kind. -/
theorem skip : Yields ks Parser.skip Anything := .forward fun _ => .skip_maybe

/-- Whether a token was passed tells nothing. -/
theorem accept (kind : Kind) : Yields ks (accept kind) Anything :=
  .bind (.look (Agrees.looks_check kind)) fun _ _ =>
    .ite (.bind .skip fun _ _ => .pure trivial) (.pure trivial)

/-- Passing a token of a kind answers nothing. -/
theorem expect (kind : Kind) : Yields ks (expect kind) Anything :=
  .bind .peek fun _ _ => .ite .skip .fail

/-- An attempt that succeeds answers what its parser does. -/
theorem attempt (hp : Yields ks p V) :
    Yields ks (attempt p) fun found => ∀ a, found = some a → V a := by
  intro c hc found c' hfound
  cases hpc : p c with
  | error e =>
    rw [Parser.attempt, hpc] at hfound
    cases hfound
    refine ⟨hc, fun a ha => ?_⟩
    cases ha
  | ok r =>
    rw [Parser.attempt, hpc] at hfound
    cases hfound
    obtain ⟨hwithin, hr⟩ := hp c hc r.1 r.2 hpc
    exact ⟨hwithin, fun a ha => Option.some.inj ha ▸ hr⟩

/-- What follows a token that may be missing. -/
theorem after {kind : Kind} (hp : Yields ks p V) :
    Yields ks (after kind p) fun found => ∀ a, found = some a → V a :=
  .bind (.accept kind) fun _ _ =>
    .ite (.bind hp fun _ ha => .pure fun _ heq => Option.some.inj heq ▸ ha) (.pure nofun)

/-! ## Loops -/

/-- Whether a list is over tells nothing. -/
theorem test {isOver : Parser Bool} (h : Agrees.TestsEnd isOver) : Yields ks isOver Anything := by
  intro c hc a c' ha
  obtain ⟨b, hb, -⟩ := h c hc.last
  cases ha.symm.trans hb
  exact ⟨hc, trivial⟩

/-- The pieces of a list, by induction on the bound on its turns. -/
theorem manyFor {isOver : Parser Bool} {piece : Parser (List α)} (hover : Agrees.TestsEnd isOver)
    (hpiece : Yields ks piece fun found => ∀ a ∈ found, V a) (n : Nat) :
    Yields ks (manyFor isOver piece n) fun found => ∀ a ∈ found, V a := by
  induction n with
  | zero => exact .fail
  | succ n ih =>
    refine .bind (.test hover) fun _ _ => .ite (.pure nofun) ?_
    refine .bind hpiece fun found hfound => .bind ih fun others hothers => .pure ?_
    exact List.forall_mem_append.2 ⟨hfound, hothers⟩

/-- The pieces of a list. -/
theorem many {isOver : Parser Bool} {piece : Parser (List α)} (hover : Agrees.TestsEnd isOver)
    (hpiece : Yields ks piece fun found => ∀ a ∈ found, V a) :
    Yields ks (many isOver piece) fun found => ∀ a ∈ found, V a :=
  .bind .turns fun n _ => .manyFor hover hpiece n

/-- The elements between commas, by induction on the bound on their number. -/
theorem listFor {close : Punct} (hp : Yields ks p V) (n : Nat) :
    Yields ks (listFor close p n) fun found => ∀ a ∈ found, V a := by
  induction n with
  | zero => exact .fail
  | succ n ih =>
    refine .bind (.test (Agrees.testsEnd_atEnd close)) fun _ _ => .ite (.pure nofun) ?_
    refine .bind hp fun a ha => .bind (.accept _) fun _ _ => .ite ?_ (.pure ?_)
    · exact .bind ih fun others hothers => .pure (List.forall_mem_cons.2 ⟨ha, hothers⟩)
    · exact List.forall_mem_singleton.2 ha

/-- The elements between commas. -/
theorem list {close : Punct} (hp : Yields ks p V) :
    Yields ks (list close p) fun found => ∀ a ∈ found, V a :=
  .bind .turns fun n _ => .listFor hp n

/-- The elements after separators, by induction on the bound on their number. -/
theorem moreFor {separator : Punct} (hp : Yields ks p V) (n : Nat) :
    Yields ks (moreFor separator p n) fun found => ∀ a ∈ found, V a := by
  induction n with
  | zero => exact .fail
  | succ n ih =>
    refine .bind (.accept _) fun _ _ => .ite ?_ (.pure nofun)
    exact .bind hp fun a ha => .bind ih fun others hothers =>
      .pure (List.forall_mem_cons.2 ⟨ha, hothers⟩)

/-- The elements with separators between them. -/
theorem separated {separator : Punct} (hp : Yields ks p V) :
    Yields ks (separated separator p) fun found => ∀ a ∈ found, V a :=
  .bind hp fun _ ha => .bind (.bind .turns fun n _ => .moreFor hp n) fun _ hothers =>
    .pure (List.forall_mem_cons.2 ⟨ha, hothers⟩)

/-! ## Names -/

section

variable (hwords : Token.WordsOnly ks)

include hwords

/-- An identifier that is read is a word. -/
theorem identifier : Yields ks Parser.identifier fun name => Literal.isWord name = true := by
  refine .bind .peek fun kind hkind => ?_
  split
  · exact .bind .skip fun _ _ => .pure (hwords _ hkind _ rfl)
  · exact .ite (.bind .skip fun _ _ => .pure (hwords _ hkind _ rfl)) .fail
  · exact .fail

/-- The subject of a type predicate is a word. -/
theorem predicateParam : Yields ks Parser.predicateParam fun name => Literal.isWord name = true :=
  .bind (.accept _) fun _ _ => .ite (.pure rfl) (.identifier hwords)

/-- The rest of a dotted name consists of dots and words. -/
theorem qualifiedTail : Yields ks Parser.qualifiedTail Token.IsTail := by
  intro c hc
  refine .step rfl ⟨hc.passes (n := 0) ⟨rfl, rfl, Agrees.dottedTail_suffix _, ?_⟩, ?_⟩
  · exact (Agrees.dottedTail_suffix _).length_le
  · exact isTail_dottedTail fun kind hkind =>
      hwords kind (hc.suffix.subset (List.mem_append_left _ hkind))

end

end Yields

end Parser

end DeclLayer
