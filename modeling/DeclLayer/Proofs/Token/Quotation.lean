import DeclLayer.Proofs.Text.Cutting
import DeclLayer.Proofs.Token.Places
import DeclLayer.Proofs.Token.Spelling

/-!
# Quoted text is one token

A quoted text is scanned as a string with that value, whatever follows it, and what follows is
scanned as if it stood alone (`Token.scan_quote`). For this it must not end early and must not be
cut by a line end: no control character and no white space but the space is left in it
(`Text.mem_quote`).
-/

namespace DeclLayer

namespace Text

/-- A character that is neither a control character nor white space other than the space. -/
def isInline (c : Char) : Bool :=
  !isControl c && (!isBlank c || c == ' ')

/-- A hexadecimal digit stays on the line. -/
theorem isInline_upperHexDigit {n : Nat} (h : n < 16) : isInline (upperHexDigit n) = true := by
  have hall : ∀ i : Fin 16, isInline (upperHexDigit i.val) = true := by decide
  exact hall ⟨n, h⟩

/-- Four hexadecimal digits stay on the line. -/
theorem isInline_upperHex4 (n : Nat) : (upperHex4 n).all isInline = true := by
  have hmod (m : Nat) : isInline (upperHexDigit (m % 16)) = true :=
    isInline_upperHexDigit (Nat.mod_lt m (by decide))
  simp only [upperHex4, List.all_cons, List.all_nil, hmod, Bool.and_self]

/-- A character that is written as itself is one that a line can hold. -/
theorem isInline_of_not_needsCode {c : Char} (h : ¬needsCode c = true) : isInline c = true := by
  simp only [needsCode, Bool.or_eq_true, Bool.and_eq_true, not_or, bne_iff_ne] at h
  obtain ⟨⟨hcontrol, hblank⟩, -⟩ := h
  cases hspace : isBlank c with
  | false => simp [isInline, hcontrol, hspace]
  | true =>
    have hc : c = ' ' := Classical.not_not.1 fun hne => hblank ⟨hspace, hne⟩
    subst hc
    decide

/-- What is written for a character of a quoted text stays on the line. -/
theorem isInline_quoteChar (c : Char) (next : Option Char) :
    (quoteChar c next).all isInline = true := by
  unfold quoteChar
  split
  case h_6 =>
    split
    · exact isInline_upperHex4 0
    · decide
  case h_10 =>
    split
    · exact isInline_upperHex4 c.toNat
    · next hcode =>
      rw [List.all_cons, isInline_of_not_needsCode hcode]
      rfl
  all_goals decide

/-- All characters of a quoted text stand on one line. -/
theorem mem_quote (s : String) : ∀ c ∈ (quote s).toList, isInline c = true := by
  have hbody (cs : List Char) : (quoteBody cs).all isInline = true := by
    induction cs with
    | nil => rfl
    | cons c cs ih => rw [quoteBody, List.all_append, isInline_quoteChar, ih, Bool.and_self]
  rw [← List.all_eq_true, quote, String.toList_ofList, List.cons_append, List.all_cons,
    List.all_append, hbody]
  decide

end Text

namespace Token

open Text

/-- Scanning a quoted text gives its value back as one token that is exactly as long as the quoted
text, and then the tokens of what follows. A quoted text is a single line of characters that stand
on a line, and different texts are quoted differently. -/
theorem scan_quote (s rest : String) :
    scan (quote s ++ rest) =
      ⟨.string s, 0, utf8Size (quote s).toList, []⟩ ::
        (scan rest).map (shift (utf8Size (quote s).toList)) ∧
    ((quote s).toList.all fun c => !isControl c && (!isBlank c || c == ' ')) = true ∧
    Text.lines (quote s) = [quote s] ∧
    Function.Injective quote := by
  have hscan (s rest : String) := scan_append (Cuts.quote s rest.toList (follows_free _))
  refine ⟨hscan s rest, List.all_eq_true.2 (mem_quote s), ?_, fun s t hquote => ?_⟩
  · have hfeed : '\n' ∉ (quote s).toList := fun hmem => absurd (mem_quote s _ hmem) (by decide)
    have hne : (quote s).toList ≠ [] := by
      rw [quote, String.toList_ofList]
      exact List.cons_ne_nil _ _
    rw [Text.lines, linesOf_last hfeed hne, List.map_singleton, String.ofList_toList]
  · have htokens := hscan s ""
    rw [hquote, hscan t ""] at htokens
    injection htokens with hfirst
    injection hfirst with hkind
    injection hkind with hvalue
    exact hvalue.symm

end Token

end DeclLayer
