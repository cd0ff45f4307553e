import DeclLayer.Proofs.Parse.Names

/-!
# Plain names and numbers

Names of ASCII letters, digits, underscores and dollars that are no keywords, and numbers of decimal
digits. They are read back as what they are wherever a name or a number is expected.
-/

namespace DeclLayer

namespace Literal

/-- A text of decimal digits. -/
def isDecimal (s : String) : Bool :=
  !s.toList.isEmpty && s.toList.all Char.isDigit

/-- Digits are a number up to the end. -/
theorem numberLength_digits (hex : Bool) (last : Char) {cs : List Char}
    (h : cs.all Char.isDigit = true) : numberLength hex last cs = cs.length := by
  induction cs generalizing last with
  | nil => rfl
  | cons c cs ih =>
    rw [List.all_cons, Bool.and_eq_true_iff] at h
    have hchar : isNumberChar c = true := by
      rw [isNumberChar, Char.isAlphanum, h.1, Bool.or_true, Bool.true_or, Bool.true_or]
    rw [numberLength, hchar, Bool.true_or, if_pos rfl, ih c h.2, List.length_cons]

/-- A decimal number is a number. -/
theorem isNumber_of_isDecimal {s : String} (h : isDecimal s = true) : isNumber s = true := by
  obtain ⟨hne, hall⟩ := Bool.and_eq_true_iff.1 h
  rw [isNumber]
  split
  · next hnil =>
    rw [hnil] at hne
    cases hne
  · next c cs htext =>
    rw [htext, List.all_cons, Bool.and_eq_true_iff] at hall
    rw [hall.1, numberLength_digits _ c hall.2, beq_self_eq_true]
    rfl

end Literal

namespace Token

open Literal Text

/-- A name of letters, digits, underscores and dollars that is no keyword. -/
def isPlainName (s : String) : Bool :=
  (match s.toList with
    | [] => false
    | c :: cs => (c.isAlpha || c == '_' || c == '$') &&
        cs.all fun d => d.isAlpha || d.isDigit || d == '_' || d == '$') &&
    (Keyword.ofText? s).isNone

/-- One or more plain names with dots between them. -/
def IsPlainDotted (name : String) : Prop :=
  ∃ ws : List String, ws ≠ [] ∧ (∀ w ∈ ws, isPlainName w = true) ∧ name = joinWith "." ws

variable {s name : String}

/-- A plain name is a word. -/
theorem isWord_of_isPlainName (h : isPlainName s = true) : isWord s = true := by
  obtain ⟨hchars, -⟩ := Bool.and_eq_true_iff.1 h
  split at hchars
  · cases hchars
  · next c cs htext =>
    obtain ⟨hhead, hall⟩ := Bool.and_eq_true_iff.1 hchars
    rw [isWord, htext]
    exact Bool.and_eq_true_iff.2 ⟨by rw [isIdentStart, hhead, Bool.true_or], hall⟩

/-- A plain name is an identifier and no keyword. -/
theorem wordKind_of_isPlainName (h : isPlainName s = true) : wordKind s = .ident s := by
  obtain ⟨-, hkeyword⟩ := Bool.and_eq_true_iff.1 h
  rw [wordKind, Option.isNone_iff_eq_none.1 hkeyword]

/-- The words of a plain dotted name are plain names. -/
theorem IsPlainDotted.words (h : IsPlainDotted name) :
    ∀ w ∈ nameWords name, isPlainName w = true := by
  obtain ⟨ws, hne, hws, rfl⟩ := h
  rw [nameWords_joinWith hne fun w hw => isWord_of_isPlainName (hws w hw)]
  exact hws

/-- A plain dotted name is a dotted name. -/
theorem IsPlainDotted.isDotted (h : IsPlainDotted name) : isDotted name = true := by
  rw [Token.isDotted, List.all_eq_true]
  exact fun w hw => isWord_of_isPlainName (h.words w hw)

end Token

end DeclLayer
