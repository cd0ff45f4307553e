import DeclLayer.Proofs.Token.Laid

/-!
# How tokens are spelled

Each class of token with the texts that spell it: blanks, marks, words, numbers and quoted strings.
-/

namespace DeclLayer

/-! ## Words and numbers -/

/-- A character that goes on with no word. -/
def Token.notWord (c : Char) : Bool :=
  !Literal.isIdentChar c

namespace Literal

/-- A text that is one word: an identifier, a keyword or a private name. -/
def isWord (s : String) : Bool :=
  match s.toList with
  | [] => false
  | c :: cs =>
    (isIdentStart c || (c == '#' && cs.head?.any fun d => d.isAlpha || d == '_')) &&
      cs.all isIdentChar

/-- A text that is one number. -/
def isNumber (s : String) : Bool :=
  match s.toList with
  | [] => false
  | c :: cs => c.isDigit && numberLength (c == '0' && cs.head? == some 'x') c cs == cs.length

/-- The identifier characters at the front end where they are followed by something else. -/
theorem identLength_append {cs r : List Char} (hcs : cs.all isIdentChar = true)
    (hr : Token.Follows Token.notWord r) : identLength (cs ++ r) = cs.length := by
  have hrest : r.takeWhile isIdentChar = [] := by
    cases r with
    | nil => rfl
    | cons c r =>
      have hc : isIdentChar c = false := Bool.not_eq_true' _ ▸ hr c rfl
      rw [List.takeWhile_cons, hc, if_neg Bool.false_ne_true]
  rw [identLength, List.takeWhile_append_of_pos (List.all_eq_true.1 hcs), hrest, List.append_nil]

/-- A number ends where it is followed by something that is set apart. -/
theorem numberLength_append (hex : Bool) {r : List Char} (hr : Token.Follows Token.apart r) :
    ∀ (last : Char) (cs : List Char), numberLength hex last cs = cs.length →
      numberLength hex last (cs ++ r) = cs.length := by
  intro last cs
  induction cs generalizing last with
  | nil =>
    intro _
    cases r with
    | nil => rfl
    | cons c r =>
      have hc : Token.apart c = true := hr c rfl
      rw [List.nil_append, numberLength, if_neg, List.length_nil]
      simp only [Token.apart, isIdentChar, Bool.not_eq_true', Bool.or_eq_false_iff] at hc
      simp only [isNumberChar, hc, Bool.or_false, Bool.false_and, Bool.false_eq_true,
        not_false_iff]
  | cons c cs ih =>
    intro h
    rw [numberLength] at h
    rw [List.cons_append, numberLength]
    split at h
    · next hc =>
      rw [if_pos hc, ih c (by rw [List.length_cons] at h; omega), List.length_cons]
    · rw [List.length_cons] at h
      omega

end Literal

namespace Token

open Literal Text

/-! ## Single lexemes -/

/-- The codes of the digits. -/
theorem isDigit_iff {c : Char} : c.isDigit = true ↔ 48 ≤ c.toNat ∧ c.toNat ≤ 57 := by
  simp only [Char.isDigit, Bool.and_eq_true, decide_eq_true_eq]
  exact Iff.rfl

/-- The codes of the characters that begin an identifier. -/
theorem isIdentStart_iff {c : Char} :
    isIdentStart c = true ↔ ((65 ≤ c.toNat ∧ c.toNat ≤ 90) ∨ (97 ≤ c.toNat ∧ c.toNat ≤ 122)) ∨
      c.toNat = 95 ∨ c.toNat = 36 := by
  have heq (d : Char) : c = d ↔ c.toNat = d.toNat := Char.toNat_inj.symm
  have halpha : c.isAlpha = true ↔
      (65 ≤ c.toNat ∧ c.toNat ≤ 90) ∨ (97 ≤ c.toNat ∧ c.toNat ≤ 122) := by
    delta Char.isAlpha Char.isUpper Char.isLower
    simp only [Bool.or_eq_true, Bool.and_eq_true, decide_eq_true_eq]
    exact Iff.rfl
  simp only [isIdentStart, Bool.or_eq_true, beq_iff_eq, heq, halpha, or_assoc]
  exact Iff.rfl

/-- What begins a word or a number is no mark, and begins no literal or comment. -/
theorem lexeme_of_identStart_or_digit {c : Char} (hc : isIdentStart c = true ∨ c.isDigit = true)
    (cs : List Char) :
    lexeme c cs =
      if c.isDigit then
        let length := numberLength (c == '0' && cs.head? == some 'x') c cs
        (.token (.number (String.ofList (c :: cs.take length))), length)
      else
        let length := identLength cs
        (.token (wordKind (String.ofList (c :: cs.take length))), length) := by
  have hpunct : simplePunct? c = none := by
    unfold simplePunct?
    split <;> first | exact absurd hc (by decide) | rfl
  have hne (d : Char) (hd : ¬(isIdentStart d = true ∨ d.isDigit = true)) : c ≠ d := by
    rintro rfl
    exact hd hc
  have hquote : ¬(c = '"' ∨ c = '\'') := by
    rintro (h | h)
    · exact hne '"' (by decide) h
    · exact hne '\'' (by decide) h
  rw [lexeme, hpunct]
  dsimp only
  rw [if_neg (hne '\x60' (by decide)), if_neg (hne '.' (by decide)), if_neg (hne '=' (by decide)),
    if_neg (hne '/' (by decide)), if_neg hquote]
  split
  · rfl
  · next hdigit => rw [if_pos (hc.resolve_right hdigit)]

/-- A word is a lexeme. -/
theorem lexeme_word {c : Char} {cs r : List Char} (hc : isIdentStart c = true)
    (hcs : cs.all isIdentChar = true) (hr : Follows notWord r) :
    lexeme c (cs ++ r) = (.token (wordKind (String.ofList (c :: cs))), cs.length) := by
  have hdigit : ¬c.isDigit = true := by
    rw [isDigit_iff]
    rw [isIdentStart_iff] at hc
    omega
  rw [lexeme_of_identStart_or_digit (.inl hc), if_neg hdigit]
  dsimp only
  rw [identLength_append hcs hr, List.take_left]

/-- A private name is a lexeme. It is no keyword, whatever follows the number sign. -/
theorem lexeme_privateName {cs r : List Char}
    (hhead : (cs.head?.any fun d => d.isAlpha || d == '_') = true)
    (hcs : cs.all isIdentChar = true) (hr : Follows notWord r) :
    lexeme '#' (cs ++ r) = (.token (wordKind (String.ofList ('#' :: cs))), cs.length) := by
  have hhead' : ((cs ++ r).head?.any fun d => d.isAlpha || d == '_') = true := by
    cases cs with
    | nil => cases hhead
    | cons c cs => exact hhead
  have hkind : wordKind (String.ofList ('#' :: cs)) = .ident (String.ofList ('#' :: cs)) := by
    have hnone : Keyword.ofText? (String.ofList ('#' :: cs)) = none := by
      rw [Keyword.ofText?, List.find?_eq_none]
      intro k _ hk
      have htext : k.text.toList = '#' :: cs := by
        rw [beq_iff_eq.1 hk, String.toList_ofList]
      cases k <;> exact absurd (List.cons.inj htext).1 (by decide)
    rw [wordKind, hnone]
  have hlexeme : lexeme '#' (cs ++ r) =
      if '#' = '#' ∧ ((cs ++ r).head?.any fun d => d.isAlpha || d == '_') = true then
        (.token (.ident (String.ofList ('#' :: (cs ++ r).take (identLength (cs ++ r))))),
          identLength (cs ++ r))
      else (.skipped, 0) := rfl
  rw [hlexeme, if_pos ⟨rfl, hhead'⟩, hkind, identLength_append hcs hr, List.take_left]

/-- A number is a lexeme. -/
theorem lexeme_number {c : Char} {cs r : List Char} (hc : c.isDigit = true)
    (hcs : numberLength (c == '0' && cs.head? == some 'x') c cs = cs.length)
    (hr : Follows apart r) :
    lexeme c (cs ++ r) = (.token (.number (String.ofList (c :: cs))), cs.length) := by
  -- What follows cannot turn the number into a hexadecimal one.
  have hhex : ((cs ++ r).head? == some 'x') = (cs.head? == some 'x') := by
    cases cs with
    | cons d cs => rfl
    | nil =>
      cases r with
      | nil => rfl
      | cons d r =>
        have hd : apart d = true := hr d rfl
        have hne : d ≠ 'x' := by
          rintro rfl
          exact absurd hd (by decide)
        simpa using hne
  rw [lexeme_of_identStart_or_digit (.inr hc), if_pos hc]
  dsimp only
  rw [hhex, numberLength_append _ hr c cs hcs, List.take_left]

/-- A quoted text is a lexeme, whatever follows. -/
theorem lexeme_quoted (cs r : List Char) :
    lexeme '"' (quoteBody cs ++ ['"'] ++ r) =
      (.token (.string (String.ofList cs)), (quoteBody cs ++ ['"']).length) := by
  have hstring := string_quoteBody cs r
  rw [List.append_assoc, List.singleton_append, List.length_append, List.length_singleton]
  simp [lexeme, simplePunct?, hstring]

/-! ## Texts -/

/-- In front of a text that begins with a suitable character, a text is cut into lexemes that do not
depend on what follows. -/
def Cuts (β : Char → Bool) (text : String) (ls : List Lexeme) : Prop :=
  ∀ r, Follows β r → lexemes (text.toList ++ r) = ls ++ lexemes r

namespace Cuts

variable {β γ : Char → Bool} {text : String} {ls : List Lexeme}

/-- A text that the scanner takes as one lexeme, whatever suitable follows. -/
theorem of_lexeme {c : Char} {cs : List Char} {content : Content} (htext : text.toList = c :: cs)
    (h : ∀ r, Follows β r → lexeme c (cs ++ r) = (content, cs.length)) :
    Cuts β text [⟨text.toList, content⟩] := by
  intro r hr
  rw [htext, List.cons_append, lexemes_cons_append (h r hr)]
  rfl

/-- Fewer texts may follow. -/
theorem mono (h : Cuts β text ls) (hβ : ∀ c, γ c = true → β c = true) : Cuts γ text ls :=
  fun r hr => h r (hr.mono hβ)

/-- The lexemes of the text on its own. -/
theorem lexemes_eq (h : Cuts β text ls) : lexemes text.toList = ls := by
  have hnil := h [] follows_nil
  rwa [lexemes_nil, List.append_nil, List.append_nil] at hnil

/-- A text that is cut into one token adds that token. -/
theorem writes_token {raw : List Char} {kind : Kind} (h : Cuts β text [⟨raw, .token kind⟩]) :
    Writes β text [.token kind] := by
  intro r qs hr hqs
  rw [h r hr]
  exact .token hqs

/-- A text that is cut in one way adds its tokens as one stretch. -/
theorem writes_verbatim (h : Cuts β text ls) : Writes β text [.verbatim text] := by
  intro r qs hr hqs
  rw [h r hr, ← h.lexemes_eq]
  exact .piece (.verbatim text) hqs

/-- A word is one token. -/
theorem word {w : String} (h : isWord w = true) :
    Cuts notWord w [⟨w.toList, .token (wordKind w)⟩] := by
  rw [isWord] at h
  split at h
  · cases h
  · next c cs htext =>
    have hw : w = String.ofList (c :: cs) := by rw [← htext, String.ofList_toList]
    simp only [Bool.and_eq_true, Bool.or_eq_true, beq_iff_eq] at h
    refine of_lexeme htext fun r hr => ?_
    rw [hw]
    rcases h with ⟨hc | ⟨rfl, hhead⟩, hcs⟩
    · exact lexeme_word hc hcs hr
    · exact lexeme_privateName hhead hcs hr

/-- A number is one token. -/
theorem number (h : isNumber text = true) :
    Cuts apart text [⟨text.toList, .token (.number text)⟩] := by
  rw [isNumber] at h
  split at h
  · cases h
  · next c cs htext =>
    have hw : text = String.ofList (c :: cs) := by rw [← htext, String.ofList_toList]
    simp only [Bool.and_eq_true, beq_iff_eq] at h
    refine of_lexeme htext fun r hr => ?_
    rw [hw]
    exact lexeme_number h.1 h.2 hr

/-- A number with a sign is two tokens. -/
theorem negative (h : isNumber text = true) :
    Cuts apart ("-" ++ text)
      [⟨['-'], .token (.punct .minus)⟩, ⟨text.toList, .token (.number text)⟩] := by
  intro r hr
  have hminus : lexeme '-' ([] ++ (text.toList ++ r)) = (.token (.punct .minus), 0) := rfl
  have hcut := lexemes_cons_append hminus
  rw [number h r hr] at hcut
  rw [String.toList_append, List.append_assoc]
  exact hcut

/-- A quoted text is one token. -/
theorem quote (value : String) :
    Cuts free (Text.quote value) [⟨(Text.quote value).toList, .token (.string value)⟩] := by
  have htext : (Text.quote value).toList = '"' :: (quoteBody value.toList ++ ['"']) := by
    rw [Text.quote, String.toList_ofList, List.cons_append]
  refine of_lexeme htext fun r _ => ?_
  rw [lexeme_quoted, String.ofList_toList]

end Cuts

/-- What goes on with no word and no number goes on with no word. -/
theorem notWord_of_apart {c : Char} (h : apart c = true) : notWord c = true := by
  simp only [apart, Bool.not_eq_true', Bool.or_eq_false_iff] at h
  simp only [notWord, h, Bool.not_false]

/-- Every keyword is spelled as a word. -/
theorem isWord_keyword (k : Keyword) : isWord k.text = true := by
  cases k <;> decide

/-- The token of a word is the word itself, or the keyword that it spells. -/
theorem wordKind_cases (w : String) :
    wordKind w = .ident w ∨ ∃ k : Keyword, wordKind w = .keyword k ∧ k.text = w := by
  rw [wordKind]
  cases hk : Keyword.ofText? w with
  | none => exact .inl rfl
  | some k =>
    have htext := List.find?_some (l := Keyword.all) hk
    exact .inr ⟨k, rfl, beq_iff_eq.1 htext⟩

/-- The word that spells a keyword is read as the keyword. -/
theorem wordKind_keyword (k : Keyword) : wordKind k.text = .keyword k := by
  rw [wordKind, Keyword.ofText?_text]

namespace Writes

/-- A blank is no piece. -/
theorem blank {text : String} {c : Char} (htext : text.toList = [c])
    (h : ∀ r, lexeme c r = (.skipped, 0)) : Writes free text [] := by
  intro r qs _ hqs
  have hcut : lexeme c ([] ++ r) = (.skipped, 0) := h r
  rw [htext]
  exact lexemes_cons_append hcut ▸ .gap hqs

/-- A space adds nothing. -/
theorem space : Writes free " " [] := blank rfl fun _ => rfl

/-- A line feed adds nothing. -/
theorem newline : Writes free "\n" [] := blank rfl fun _ => rfl

/-- A mark of one character that begins no longer token. -/
theorem punct (text : String) {c : Char} {p : Punct} (htext : text.toList = [c])
    (hp : simplePunct? c = some p) : Writes free text [.token (.punct p)] :=
  (Cuts.of_lexeme htext fun r _ => by rw [lexeme, hp]; rfl).writes_token

/-- An arrow is one mark. -/
theorem arrow : Writes free "=>" [.token (.punct .arrow)] :=
  (Cuts.of_lexeme rfl fun _ _ => rfl).writes_token

/-- Three dots are one mark. -/
theorem ellipsis : Writes free "..." [.token (.punct .ellipsis)] :=
  (Cuts.of_lexeme rfl fun _ _ => rfl).writes_token

/-- An equals sign, with the blank that keeps it from becoming an arrow. -/
theorem equals : Writes free "= " [.token (.punct .eq)] := by
  intro r qs _ hqs
  have hspace := space r qs (follows_free r) hqs
  have hcut : lexeme '=' ([] ++ ' ' :: r) = (.token (.punct .eq), 0) := rfl
  exact lexemes_cons_append hcut ▸ .token hspace

/-- A word adds one token, if the word does not go on behind it. -/
theorem word {w : String} (h : isWord w = true) : Writes notWord w [.token (wordKind w)] :=
  (Cuts.word h).writes_token

/-- A keyword adds one token, if no word goes on behind it. -/
theorem keyword (k : Keyword) : Writes notWord k.text [.token (.keyword k)] :=
  wordKind_keyword k ▸ word (isWord_keyword k)

/-- A keyword with a blank after it. -/
theorem keywordSpace (k : Keyword) : Writes free (k.text ++ " ") [.token (.keyword k)] :=
  (keyword k).append space (.of_head rfl (by decide))

/-- A keyword between blanks. -/
theorem spacedKeyword (k : Keyword) : Writes free (" " ++ k.text ++ " ") [.token (.keyword k)] :=
  (space.append_free (keyword k)).append space (.of_head rfl (by decide))

/-- A quoted text adds the string with its value. -/
theorem quote (value : String) : Writes free (Text.quote value) [.token (.string value)] :=
  (Cuts.quote value).writes_token

end Writes

end Token

end DeclLayer
