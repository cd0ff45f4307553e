import DeclLayer.Text.Quoted
import DeclLayer.Token.Literal

/-!
# Quoted text is read back

Reading a quoted text gives the text again, whatever follows its closing quote
(`Literal.string_quoteBody`). Each character is quoted on its own; the one that needs to know its
neighbour is the null, whose short escape must not be followed by a digit
(`Text.head_quoteBody_isDigit`).
-/

namespace DeclLayer

namespace Text

/-! ## Hexadecimal digits -/

/-- A written hexadecimal digit is read as its value. -/
theorem hexValue?_upperHexDigit {n : Nat} (h : n < 16) : hexValue? (upperHexDigit n) = some n := by
  have hall : ∀ i : Fin 16, hexValue? (upperHexDigit i.val) = some i.val := by decide
  exact hall ⟨n, h⟩

/-- A hexadecimal digit opens no brace. -/
theorem upperHexDigit_ne_brace {n : Nat} (h : n < 16) : upperHexDigit n ≠ '\x7b' := by
  have hall : ∀ i : Fin 16, upperHexDigit i.val ≠ '\x7b' := by decide
  exact hall ⟨n, h⟩

/-- Reading goes on behind a digit. -/
theorem hexDigits_upperHexDigit (count acc : Nat) {n : Nat} (h : n < 16) (cs : List Char) :
    hexDigits (count + 1) acc (upperHexDigit n :: cs) =
      ((hexDigits count (acc * 16 + n) cs).1, (hexDigits count (acc * 16 + n) cs).2 + 1) := by
  rw [hexDigits, hexValue?_upperHexDigit h]

/-- Four digits are read back as the number they were written for. -/
theorem hexDigits_upperHex4 {n : Nat} (h : n < 65536) (cs : List Char) :
    hexDigits 4 0 (upperHex4 n ++ cs) = (some n, 4) := by
  have hend (acc : Nat) : hexDigits 0 acc cs = (some acc, 0) := by
    cases cs <;> rfl
  have hvalue : (((0 * 16 + n / 4096 % 16) * 16 + n / 256 % 16) * 16 + n / 16 % 16) * 16 + n % 16 =
      n := by
    omega
  have hmod (m : Nat) : m % 16 < 16 := Nat.mod_lt m (by decide)
  simp only [upperHex4, List.cons_append, List.nil_append]
  rw [hexDigits_upperHexDigit 3 0 (hmod _), hexDigits_upperHexDigit 2 _ (hmod _),
    hexDigits_upperHexDigit 1 _ (hmod _), hexDigits_upperHexDigit 0 _ (hmod _), hend, hvalue]

/-! ## Single characters -/

/-- A character that is written as a code lies in the basic plane. -/
theorem toNat_lt_of_needsCode {c : Char} (h : needsCode c = true) : c.toNat < 65536 := by
  simp only [needsCode, isControl, isBlank, Bool.or_eq_true, Bool.and_eq_true, decide_eq_true_eq,
    beq_iff_eq] at h
  rcases h with (h | ⟨h, -⟩) | rfl
  · omega
  · omega
  · decide

/-- A character is never the half of a surrogate pair. -/
theorem charOfCode?_toNat (c : Char) : charOfCode? c.toNat = some c := by
  have hvalid : c.toNat.isValidChar := c.valid
  rw [charOfCode?, if_pos hvalid, Char.ofNat_toNat]

/-- A character is no half of a pair. -/
theorem not_surrogate (c : Char) : ¬(0xD800 ≤ c.toNat ∧ c.toNat < 0xDC00) := by
  have hvalid : c.toNat.isValidChar := c.valid
  rw [Nat.isValidChar] at hvalid
  omega

end Text

namespace Literal

open Text

/-- The code of a character is read back as the character. -/
theorem escape_code {c : Char} (h : c.toNat < 65536) (cs : List Char) :
    escape ('u' :: upperHex4 c.toNat ++ cs) = ([c], 5) := by
  have hcode : code (upperHex4 c.toNat ++ cs) = hexDigits 4 0 (upperHex4 c.toNat ++ cs) := by
    rw [code]
    intro rest hrest
    have hhead : upperHexDigit (c.toNat / 4096 % 16) = '\x7b' := (List.cons.inj hrest).1
    exact upperHexDigit_ne_brace (Nat.mod_lt _ (by decide)) hhead
  rw [List.cons_append, escape, unicodeEscape, hcode, hexDigits_upperHex4 h]
  simp only [if_neg (not_surrogate c), charOfCode?_toNat, Option.getD_some]

end Literal

namespace Text

/-- A character is quoted as itself or as an escape that stands for it. The escape of the null is
read right if it is told whether a digit follows. -/
theorem quoteChar_cases (c : Char) (next : Option Char) :
    (quoteChar c next = [c] ∧ c ≠ '\\' ∧ c ≠ '"') ∨
    ∃ esc, quoteChar c next = '\\' :: esc ∧
      ∀ cs : List Char, cs.head?.any Char.isDigit = next.any Char.isDigit →
        Literal.escape (esc ++ cs) = ([c], esc.length) := by
  unfold quoteChar
  split
  · exact .inr ⟨_, rfl, fun _ _ => rfl⟩
  · exact .inr ⟨_, rfl, fun _ _ => rfl⟩
  · exact .inr ⟨_, rfl, fun _ _ => rfl⟩
  · exact .inr ⟨_, rfl, fun _ _ => rfl⟩
  · exact .inr ⟨_, rfl, fun _ _ => rfl⟩
  · split
    · refine .inr ⟨_, rfl, fun cs _ => ?_⟩
      exact Literal.escape_code (c := '\x00') (by decide) cs
    · next hdigit =>
      refine .inr ⟨_, rfl, fun cs hcs => ?_⟩
      rw [List.cons_append, List.nil_append, Literal.escape, hcs, if_neg hdigit]
      rfl
  · exact .inr ⟨_, rfl, fun _ _ => rfl⟩
  · exact .inr ⟨_, rfl, fun _ _ => rfl⟩
  · exact .inr ⟨_, rfl, fun _ _ => rfl⟩
  · next hquote hslash _ _ _ _ _ _ _ =>
    split
    · next hcode =>
      exact .inr ⟨_, rfl, fun cs _ => Literal.escape_code (toNat_lt_of_needsCode hcode) cs⟩
    · exact .inl ⟨rfl, hslash, hquote⟩

/-- A digit is quoted as itself. -/
theorem quoteChar_of_isDigit {c : Char} (h : c.isDigit = true) (next : Option Char) :
    quoteChar c next = [c] := by
  have hrange : c.val ≥ '0'.val ∧ c.val ≤ '9'.val := by
    simpa only [Char.isDigit, Bool.and_eq_true, decide_eq_true_eq] using h
  have hlow : 48 ≤ c.toNat := hrange.1
  have hhigh : c.toNat ≤ 57 := hrange.2
  have hbom : c ≠ '\uFEFF' := by
    rintro rfl
    exact absurd h (by decide)
  have hcode : ¬needsCode c = true := by
    simp only [needsCode, isControl, isBlank, Bool.or_eq_true, Bool.and_eq_true, decide_eq_true_eq,
      beq_iff_eq, hbom, or_false]
    omega
  unfold quoteChar
  split <;> first | exact absurd h (by decide) | exact if_neg hcode

/-- In a literal, a quoted text begins with a digit exactly if the text does. -/
theorem head_quoteBody_isDigit (cs r : List Char) :
    (quoteBody cs ++ '"' :: r).head?.any Char.isDigit = cs.head?.any Char.isDigit := by
  cases cs with
  | nil => rfl
  | cons c cs =>
    rw [quoteBody, List.append_assoc]
    cases hdigit : c.isDigit with
    | true =>
      rw [quoteChar_of_isDigit hdigit]
      rfl
    | false =>
      have hhead : (c :: cs).head?.any Char.isDigit = false := hdigit
      rw [hhead]
      rcases quoteChar_cases c cs.head? with ⟨hself, -, -⟩ | ⟨esc, hesc, -⟩
      · rw [hself]
        exact hdigit
      · rw [hesc]
        rfl

end Text

/-- Reading a quoted text up to its closing quote gives the text. -/
theorem Literal.string_quoteBody (cs r : List Char) :
    Literal.string '"' (Text.quoteBody cs ++ '"' :: r) =
      (cs, (Text.quoteBody cs).length + 1) := by
  induction cs with
  | nil =>
    rw [Text.quoteBody, List.nil_append, Literal.string, if_neg (by decide), if_pos rfl]
    rfl
  | cons c cs ih =>
    rw [Text.quoteBody, List.append_assoc]
    rcases Text.quoteChar_cases c cs.head? with ⟨hself, hslash, hquote⟩ | ⟨esc, hesc, hread⟩
    · rw [hself, List.cons_append, List.nil_append, Literal.string, if_neg hslash, if_neg hquote,
        ih]
      rfl
    · rw [hesc, List.cons_append, Literal.string, if_pos rfl,
        hread _ (Text.head_quoteBody_isDigit cs r)]
      simp only [List.drop_left, ih, List.cons_append, List.nil_append, List.length_cons,
        List.length_append]
      congr 1
      omega

end DeclLayer
