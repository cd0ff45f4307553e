import DeclLayer.Proofs.Text.Quoted
import DeclLayer.Token.Scan

/-!
# What a text is cut into

The readers of a source see pieces of it: tokens, documentation comments, and stretches of source
text that they keep as written (`Token.Piece`). `Token.Laid` says that lexemes are such pieces with
gaps between them.

A text is laid out in parts, and the scanner knows nothing of the parts: what follows a word can
become part of the word. `Token.Writes` therefore says what a text adds to the pieces of any text
after it that begins with a harmless character. Texts that end with a mark or a blank can be
followed by anything (`Token.free`), words and numbers by what neither belongs to a word nor to a
number (`Token.apart`).
-/

namespace DeclLayer.Token

open Text

/-- What a reader of tokens sees of a source. -/
inductive Piece where
  | token (kind : Kind)
  /-- A documentation comment, by its cleaned text. -/
  | doc (text : String)
  /-- The tokens of a text, with all that stands between them. -/
  | verbatim (text : String)

/-- The lexemes that a piece consists of. -/
inductive Piece.Covers : Piece → List Lexeme → Prop where
  | token (raw : List Char) (kind : Kind) : Covers (.token kind) [⟨raw, .token kind⟩]
  | doc (raw : List Char) (text : String) : Covers (.doc text) [⟨raw, .doc text⟩]
  | verbatim (text : String) : Covers (.verbatim text) (lexemes text.toList)

/-- Lexemes are pieces, with gaps between the pieces. -/
inductive Laid : List Lexeme → List Piece → Prop where
  | nil : Laid [] []
  | gap {raw : List Char} {ls : List Lexeme} {ps : List Piece} :
    Laid ls ps → Laid (⟨raw, .skipped⟩ :: ls) ps
  | piece {p : Piece} {own ls : List Lexeme} {ps : List Piece} :
    p.Covers own → Laid ls ps → Laid (own ++ ls) (p :: ps)

namespace Laid

variable {ls : List Lexeme} {ps : List Piece}

/-- A token in front is one piece more. -/
theorem token {raw : List Char} {kind : Kind} (h : Laid ls ps) :
    Laid (⟨raw, .token kind⟩ :: ls) (.token kind :: ps) :=
  .piece (.token raw kind) h

/-- A documentation comment in front is one piece more. -/
theorem doc {raw : List Char} {text : String} (h : Laid ls ps) :
    Laid (⟨raw, .doc text⟩ :: ls) (.doc text :: ps) :=
  .piece (.doc raw text) h

/-- A gap in front adds no piece. -/
theorem gap_append {gap : List Lexeme} (hgap : ∀ l ∈ gap, l.content = .skipped) (h : Laid ls ps) :
    Laid (gap ++ ls) ps := by
  induction gap with
  | nil => exact h
  | cons l gap ih =>
    obtain ⟨raw, content⟩ := l
    obtain ⟨hl, hrest⟩ := List.forall_mem_cons.1 hgap
    cases hl
    exact .gap (ih hrest)

/-- The first piece comes after a gap. -/
theorem cons_inv {p : Piece} (h : Laid ls (p :: ps)) :
    ∃ gap own ls', ls = gap ++ (own ++ ls') ∧ (∀ l ∈ gap, l.content = .skipped) ∧ p.Covers own ∧
      Laid ls' ps := by
  generalize hall : p :: ps = all at h
  induction h with
  | nil => cases hall
  | @gap raw ls _ _ ih =>
    obtain ⟨gap, own, ls', rfl, hgap, hown, hls'⟩ := ih hall
    exact ⟨⟨raw, .skipped⟩ :: gap, own, ls', rfl, List.forall_mem_cons.2 ⟨rfl, hgap⟩, hown, hls'⟩
  | @piece _ own ls _ hown hls _ =>
    cases hall
    exact ⟨[], own, ls, rfl, nofun, hown, hls⟩

end Laid

/-- The first character, if there is one, satisfies a condition. -/
def Follows (β : Char → Bool) (cs : List Char) : Prop :=
  ∀ c ∈ cs.head?, β c = true

/-- In front of a text that begins with a suitable character, a text adds pieces. -/
def Writes (β : Char → Bool) (text : String) (ps : List Piece) : Prop :=
  ∀ r qs, Follows β r → Laid (lexemes r) qs → Laid (lexemes (text.toList ++ r)) (ps ++ qs)

/-- Anything can follow. -/
def free : Char → Bool := fun _ => true

/-- A character that goes on with no word and no number. -/
def apart (c : Char) : Bool :=
  !(Literal.isIdentChar c || c == '.' || c == '+' || c == '-')

/-- What can follow a text that is kept as written: blanks, and the marks after names, patterns and
initializers. -/
def tight (c : Char) : Bool :=
  c == ' ' || c == '\n' || c == ',' || c == ';' || c == ':' || c == '?' || c == '(' || c == ')' ||
    c == '<'

/-- What follows a text that is kept as written goes on with no word and no number. -/
theorem apart_of_tight {c : Char} (h : tight c = true) : apart c = true := by
  simp only [tight, Bool.or_eq_true, beq_iff_eq] at h
  rcases h with (((((((rfl | rfl) | rfl) | rfl) | rfl) | rfl) | rfl) | rfl) | rfl <;> decide

/-! ## Lexemes -/

/-- An empty text has no lexemes. -/
theorem lexemes_nil : lexemes [] = [] := by
  rw [lexemes]

/-- A lexeme that takes a known stretch is followed by the lexemes after it. -/
theorem lexemes_cons_append {c : Char} {body r : List Char} {content : Content}
    (h : lexeme c (body ++ r) = (content, body.length)) :
    lexemes (c :: (body ++ r)) = ⟨c :: body, content⟩ :: lexemes r := by
  rw [lexemes, h]
  simp only [List.take_left, List.drop_left]

/-- The lexemes of a text make up the text. -/
theorem flatMap_raw_lexemes (cs : List Char) : (lexemes cs).flatMap Lexeme.raw = cs := by
  induction h : cs.length using Nat.strongRecOn generalizing cs with
  | ind n ih =>
    subst h
    cases cs with
    | nil => rw [lexemes_nil, List.flatMap_nil]
    | cons c cs =>
      have hlength : (cs.drop (lexeme c cs).2).length < (c :: cs).length := by
        rw [List.length_drop, List.length_cons]
        omega
      rw [lexemes, List.flatMap_cons, ih _ hlength _ rfl, List.cons_append, List.take_append_drop]

/-! ## Texts in a row -/

section

variable {β γ : Char → Bool} {s t : String} {ps qs : List Piece}

@[simp] theorem follows_nil : Follows β [] := fun _ h => nomatch h

@[simp] theorem follows_free (cs : List Char) : Follows free cs := fun _ _ => rfl

/-- A text that begins with a suitable character can follow. -/
theorem follows_cons {c : Char} (h : β c = true) (cs : List Char) : Follows β (c :: cs) := by
  intro d hd
  cases hd
  exact h

/-- What satisfies a condition satisfies a weaker one. -/
theorem Follows.mono (h : ∀ c, γ c = true → β c = true) {cs : List Char} (hcs : Follows γ cs) :
    Follows β cs := fun c hc => h c (hcs c hc)

/-- A text can stand between what asks for `β` and what is asked for by `γ`: it begins with a
suitable character, or leaves the question to what follows. -/
def Meets (β : Char → Bool) (t : String) (γ : Char → Bool) : Prop :=
  ∀ r, Follows γ r → Follows β (t.toList ++ r)

/-- Any text can stand where anything can follow. -/
theorem meets_free (t : String) : Meets free t γ := fun _ _ => follows_free _

/-- A text can stand where its first character can. -/
theorem Meets.of_head {c : Char} {cs : List Char} (ht : t.toList = c :: cs) (h : β c = true) :
    Meets β t γ := by
  intro r _
  rw [ht]
  exact follows_cons h _

/-- An empty text leaves the question to what follows. -/
theorem meets_empty (h : ∀ c, γ c = true → β c = true) : Meets β "" γ :=
  fun _ hr => hr.mono h

namespace Writes

/-- An empty text adds nothing. -/
theorem empty : Writes β "" [] := fun _ _ _ h => h

/-- Two texts in a row add their pieces in a row, if the second can stand behind the first. -/
theorem append (hs : Writes β s ps) (ht : Writes γ t qs) (h : Meets β t γ) :
    Writes γ (s ++ t) (ps ++ qs) := by
  intro r rs hr hrs
  rw [String.toList_append, List.append_assoc, List.append_assoc]
  exact hs _ _ (h r hr) (ht r rs hr hrs)

/-- Fewer texts may follow. -/
theorem mono (hs : Writes β s ps) (h : ∀ c, γ c = true → β c = true) : Writes γ s ps :=
  fun r qs hr => hs r qs (hr.mono h)

/-- What can be followed by anything can be followed by what is suitable. -/
theorem of_free (hs : Writes free s ps) : Writes β s ps := hs.mono fun _ _ => rfl

/-- A text that can be followed by anything goes in front of any text. -/
theorem append_free (hs : Writes free s ps) (ht : Writes γ t qs) : Writes γ (s ++ t) (ps ++ qs) :=
  hs.append ht (meets_free t)

end Writes

end

end DeclLayer.Token
