import DeclLayer.Token.Literal

/-!
# Closed literals

A string or template that reaches its closing mark is read the same whatever follows the mark
(`Literal.string_append`, `Literal.template_append`). The escapes of a string look ahead: at the
digit that would go on with a number, or at a second escape that would complete a surrogate pair.
In a closed string what they look at still belongs to the string (`Literal.Ahead`).
-/

namespace DeclLayer.Literal

open Text

/-! ## Escapes and what follows them -/

/-- Enough characters for an escape to look at: one, and a second one behind a backslash. -/
def Ahead (cs : List Char) : Prop :=
  cs ≠ [] ∧ cs ≠ ['\\']

/-- Hexadecimal digits that end before the text does are the same with more text behind. -/
theorem hexDigits_append {count acc : Nat} {cs : List Char}
    (h : cs.drop (hexDigits count acc cs).2 ≠ []) (r : List Char) :
    hexDigits count acc (cs ++ r) = hexDigits count acc cs := by
  induction cs generalizing count acc with
  | nil => exact absurd List.drop_nil h
  | cons c cs ih =>
    cases count with
    | zero => rfl
    | succ count =>
      rw [hexDigits] at h
      rw [List.cons_append, hexDigits, hexDigits]
      cases hc : hexValue? c with
      | none => rfl
      | some d =>
        rw [hc] at h
        dsimp only
        rw [ih h]

/-- The digits of a code in braces that end before the text does are the same with more text behind.
-/
theorem bracedDigits_append {digits acc : Nat} {cs : List Char}
    (h : cs.drop (bracedDigits digits acc cs).2 ≠ []) (r : List Char) :
    bracedDigits digits acc (cs ++ r) = bracedDigits digits acc cs := by
  induction cs generalizing digits acc with
  | nil => exact absurd List.drop_nil h
  | cons c cs ih =>
    rw [bracedDigits] at h
    rw [List.cons_append, bracedDigits, bracedDigits]
    split
    · rfl
    · next hbrace =>
      rw [if_neg hbrace] at h
      cases hc : hexValue? c with
      | none => rfl
      | some d =>
        rw [hc] at h
        dsimp only at h ⊢
        split
        · next hvalue =>
          rw [if_pos hvalue] at h
          rw [ih h]
        · rfl

/-- A code that ends before the text does is the same with more text behind. -/
theorem code_append {cs : List Char} (h : cs.drop (code cs).2 ≠ []) (r : List Char) :
    code (cs ++ r) = code cs := by
  cases cs with
  | nil => exact absurd List.drop_nil h
  | cons c cs =>
    by_cases hc : c = '\x7b'
    · subst hc
      have hcode (cs : List Char) : code ('\x7b' :: cs) =
          ((bracedDigits 0 0 cs).1, (bracedDigits 0 0 cs).2 + 1) := rfl
      rw [hcode, List.drop_succ_cons] at h
      rw [List.cons_append, hcode, hcode, bracedDigits_append h]
    · have hcode (cs : List Char) : code (c :: cs) = hexDigits 4 0 (c :: cs) := by
        rw [code]
        rintro _ ⟨⟩
        exact hc rfl
      rw [hcode] at h
      rw [hcode, ← hexDigits_append h r, List.cons_append, hcode]

/-- A second half of a pair that ends before the text does is the same with more text behind. -/
theorem lowSurrogate_append {high : Nat} {cs : List Char}
    (h : Ahead (cs.drop (lowSurrogate high cs).2)) (r : List Char) :
    lowSurrogate high (cs ++ r) = lowSurrogate high cs := by
  by_cases hescape : ∃ rest, cs = '\\' :: 'u' :: rest
  · obtain ⟨rest, rfl⟩ := hescape
    rw [lowSurrogate] at h
    rw [List.cons_append, List.cons_append, lowSurrogate, lowSurrogate, code_append h.1]
  · -- A second escape needs two characters, and these are there without `r`.
    have hnone : ∀ rest, cs = '\\' :: 'u' :: rest → False := fun rest heq => hescape ⟨rest, heq⟩
    have hnone' : ∀ rest, cs ++ r = '\\' :: 'u' :: rest → False := by
      intro rest heq
      rw [lowSurrogate.eq_2 _ _ hnone] at h
      obtain ⟨hne, hslash⟩ := h
      match cs with
      | [] => exact hne rfl
      | [c] =>
        obtain ⟨rfl, -⟩ := List.cons.inj heq
        exact hslash rfl
      | c :: d :: cs =>
        obtain ⟨rfl, htail⟩ := List.cons.inj heq
        obtain ⟨rfl, -⟩ := List.cons.inj htail
        exact hnone cs rfl
    rw [lowSurrogate.eq_2 _ _ hnone, lowSurrogate.eq_2 _ _ hnone']

/-- Dropping less than all of a list leaves what is behind it. -/
theorem drop_append_of_ne_nil {n : Nat} {cs : List Char} (h : cs.drop n ≠ []) (r : List Char) :
    (cs ++ r).drop n = cs.drop n ++ r := by
  rw [List.drop_append_of_le_length]
  exact Nat.le_of_not_lt fun hlt => h (List.drop_of_length_le (Nat.le_of_lt hlt))

/-- A Unicode escape that ends before the text does is the same with more text behind. -/
theorem unicodeEscape_append {cs : List Char} (h : Ahead (cs.drop (unicodeEscape cs).2))
    (r : List Char) : unicodeEscape (cs ++ r) = unicodeEscape cs := by
  unfold unicodeEscape at h ⊢
  cases hvalue : (code cs).1 with
  | none =>
    simp only [hvalue] at h
    simp only [code_append h.1, hvalue]
  | some n =>
    simp only [hvalue] at h
    split at h
    · next hhigh =>
      rw [← List.drop_drop] at h
      have hne : cs.drop (code cs).2 ≠ [] := by
        intro hnil
        rw [hnil] at h
        exact h.1 List.drop_nil
      simp only [code_append hne, hvalue, if_pos hhigh, drop_append_of_ne_nil hne,
        lowSurrogate_append h]
    · next hhigh => simp only [code_append h.1, hvalue, if_neg hhigh]

/-- Four escapes look further than their first character. -/
theorem escape_cases (c : Char) :
    c = '0' ∨ c = 'x' ∨ c = 'u' ∨ c = '\r' ∨ ∀ cs ds, escape (c :: cs) = escape (c :: ds) := by
  by_cases hc : c = '0' ∨ c = 'x' ∨ c = 'u' ∨ c = '\r'
  · grind
  · refine .inr (.inr (.inr (.inr fun cs ds => ?_)))
    unfold escape
    split <;> simp_all

/-- An escape that ends before the text does is the same with more text behind. -/
theorem escape_append {cs : List Char} (h : Ahead (cs.drop (escape cs).2)) (r : List Char) :
    escape (cs ++ r) = escape cs := by
  cases cs with
  | nil => exact absurd List.drop_nil h.1
  | cons c cs =>
    rw [List.cons_append]
    rcases escape_cases c with rfl | rfl | rfl | rfl | hshort
    · cases cs with
      | nil => exact absurd rfl h.1
      | cons d cs => rfl
    · rw [escape] at h
      rw [escape, escape, hexDigits_append h.1]
    · rw [escape] at h
      rw [escape, escape, unicodeEscape_append h]
    · cases cs with
      | nil => exact absurd rfl h.1
      | cons d cs =>
        by_cases hd : d = '\n'
        · subst hd
          rfl
        · simp [escape, hd]
    · exact hshort _ _

/-! ## Strings -/

/-- Whether a string whose opening quote is behind reaches its closing quote. -/
def stringCloses (quote : Char) : List Char → Bool
  | [] => false
  | c :: cs =>
    if c = '\\' then stringCloses quote (cs.drop (escape cs).2)
    else c == quote || stringCloses quote cs
termination_by cs => cs.length
decreasing_by all_goals (simp only [List.length_cons, List.length_drop]; omega)

/-- Where a string goes on to its closing quote there is enough for an escape to look at. -/
theorem ahead_of_stringCloses {quote : Char} {cs : List Char}
    (h : stringCloses quote cs = true) : Ahead cs := by
  constructor <;> rintro rfl
  · rw [stringCloses] at h
    cases h
  · rw [stringCloses, if_pos rfl, List.drop_nil, stringCloses] at h
    cases h

/-- A closed string is read the same whatever follows it. -/
theorem string_append {quote : Char} {cs : List Char} (h : stringCloses quote cs = true)
    (r : List Char) : string quote (cs ++ r) = string quote cs := by
  induction cs using stringCloses.induct with
  | case1 =>
    rw [stringCloses] at h
    cases h
  | case2 cs ih =>
    rw [stringCloses, if_pos rfl] at h
    have hahead := ahead_of_stringCloses h
    rw [List.cons_append, string, string, if_pos rfl, if_pos rfl, escape_append hahead]
    dsimp only
    rw [drop_append_of_ne_nil hahead.1, ih h]
  | case3 c cs hc ih =>
    rw [stringCloses, if_neg hc, Bool.or_eq_true, beq_iff_eq] at h
    rw [List.cons_append, string, string, if_neg hc, if_neg hc]
    by_cases hquote : c = quote
    · rw [if_pos hquote, if_pos hquote]
    · rw [if_neg hquote, if_neg hquote, ih (h.resolve_left hquote)]

/-- A closed string is read up to a closing quote. -/
theorem string_closes {quote : Char} {cs : List Char} (h : stringCloses quote cs = true) :
    ∃ body rest, cs = body ++ quote :: rest ∧ (string quote cs).2 = body.length + 1 := by
  induction cs using stringCloses.induct with
  | case1 =>
    rw [stringCloses] at h
    cases h
  | case2 cs ih =>
    rw [stringCloses, if_pos rfl] at h
    obtain ⟨body, rest, hrest, hread⟩ := ih h
    refine ⟨'\\' :: (cs.take (escape cs).2 ++ body), rest, ?_, ?_⟩
    · rw [List.cons_append, List.append_assoc, ← hrest, List.take_append_drop]
    · have hne := (ahead_of_stringCloses h).1
      have hle : (escape cs).2 ≤ cs.length :=
        Nat.le_of_not_lt fun hlt => hne (List.drop_of_length_le (Nat.le_of_lt hlt))
      rw [string, if_pos rfl]
      dsimp only
      rw [hread, List.length_cons, List.length_append, List.length_take, Nat.min_eq_left hle]
      omega
  | case3 c cs hc ih =>
    rw [stringCloses, if_neg hc, Bool.or_eq_true, beq_iff_eq] at h
    rw [string, if_neg hc]
    by_cases hquote : c = quote
    · exact ⟨[], cs, by rw [hquote]; rfl, by rw [if_pos hquote]; rfl⟩
    · obtain ⟨body, rest, hrest, hread⟩ := ih (h.resolve_left hquote)
      refine ⟨c :: body, rest, by rw [hrest]; rfl, ?_⟩
      rw [if_neg hquote]
      dsimp only
      rw [hread, List.length_cons]

/-! ## Templates -/

/-- The equation of `template` for a character that stands for itself. -/
theorem template_cons {c : Char} {cs : List Char} (hslash : c ≠ '\\')
    (hdollar : c = '$' → cs.head? ≠ some '\x7b') (depth : Nat) :
    template depth (c :: cs) =
      if c = '\x60' ∧ depth = 0 then (0, true)
      else
        ((template (if c = '\x7d' then depth - 1 else depth) cs).1 + 1,
          (template (if c = '\x7d' then depth - 1 else depth) cs).2) := by
  rw [template]
  · exact fun hc _ => hslash hc
  · exact fun _ _ hc _ => hslash hc
  · rintro rest hc rfl
    exact hdollar hc rfl

/-- A closed template is read the same whatever follows it. -/
theorem template_append {depth : Nat} {cs : List Char} (h : (template depth cs).2 = true)
    (r : List Char) : template depth (cs ++ r) = template depth cs := by
  induction depth, cs using template.induct with
  | case1 depth => cases h
  | case2 depth => cases h
  | case3 depth c cs length closed _ ih =>
    rw [template] at h
    rw [List.cons_append, List.cons_append, template, template, ih h]
  | case4 depth cs length closed _ ih =>
    rw [template] at h
    rw [List.cons_append, List.cons_append, template, template, ih h]
  | case5 depth c cs _ _ _ hclose =>
    obtain ⟨rfl, rfl⟩ := hclose
    rfl
  | case6 depth c cs hlast hslash hdollar hclose length closed _ ih =>
    have hc : c ≠ '\\' := by
      cases cs with
      | nil => exact fun hc => hlast hc rfl
      | cons d cs => exact fun hc => hslash d cs hc rfl
    have hhead : c = '$' → cs.head? ≠ some '\x7b' := by
      intro hc hhead
      obtain ⟨rest, rfl⟩ := List.head?_eq_some_iff.1 hhead
      exact hdollar rest hc rfl
    rw [template_cons hc hhead, if_neg hclose] at h
    -- The template goes on, so the character after the dollar is one of its own.
    have hhead' : c = '$' → (cs ++ r).head? ≠ some '\x7b' := by
      cases cs with
      | nil => cases h
      | cons d cs => exact hhead
    rw [List.cons_append, template_cons hc hhead', template_cons hc hhead, ih h]

/-- A closed template is read up to a closing backtick. -/
theorem template_closes {depth : Nat} {cs : List Char} (h : (template depth cs).2 = true) :
    ∃ body rest, cs = body ++ '\x60' :: rest ∧ (template depth cs).1 = body.length := by
  induction depth, cs using template.induct with
  | case1 depth => cases h
  | case2 depth => cases h
  | case3 depth c cs length closed _ ih =>
    rw [template] at h ⊢
    obtain ⟨body, rest, rfl, hlength⟩ := ih h
    exact ⟨'\\' :: c :: body, rest, rfl, congrArg (· + 2) hlength⟩
  | case4 depth cs length closed _ ih =>
    rw [template] at h ⊢
    obtain ⟨body, rest, rfl, hlength⟩ := ih h
    exact ⟨'$' :: '\x7b' :: body, rest, rfl, congrArg (· + 2) hlength⟩
  | case5 depth c cs _ _ _ hclose =>
    obtain ⟨rfl, rfl⟩ := hclose
    exact ⟨[], cs, rfl, rfl⟩
  | case6 depth c cs hlast hslash hdollar hclose length closed _ ih =>
    rw [template.eq_5 _ _ _ hlast hslash hdollar, if_neg hclose] at h ⊢
    obtain ⟨body, rest, rfl, hlength⟩ := ih h
    exact ⟨c :: body, rest, rfl, congrArg (· + 1) hlength⟩

/-- A template that nothing closes goes on to the end. -/
theorem length_of_template_open {depth : Nat} {cs : List Char} (h : (template depth cs).2 = false) :
    (template depth cs).1 = cs.length := by
  fun_induction template depth cs with
  | case1 => rfl
  | case2 => rfl
  | case3 depth c cs length closed heq ih =>
    have hlength := ih (heq ▸ h)
    rw [heq] at hlength
    exact congrArg (· + 2) hlength
  | case4 depth cs length closed heq ih =>
    have hlength := ih (heq ▸ h)
    rw [heq] at hlength
    exact congrArg (· + 2) hlength
  | case5 => cases h
  | case6 depth c cs _ _ _ _ length closed heq ih =>
    have hlength := ih (heq ▸ h)
    rw [heq] at hlength
    exact congrArg (· + 1) hlength

/-- The text of a closed template is a closed template. -/
theorem template_take {depth : Nat} {cs : List Char} (h : (template depth cs).2 = true) :
    (template depth (cs.take ((template depth cs).1 + 1))).2 = true := by
  induction depth, cs using template.induct with
  | case1 depth => cases h
  | case2 depth => cases h
  | case3 depth c cs length closed _ ih =>
    rw [template] at h ⊢
    exact ih h
  | case4 depth cs length closed _ ih =>
    rw [template] at h ⊢
    exact ih h
  | case5 depth c cs _ _ _ hclose =>
    obtain ⟨rfl, rfl⟩ := hclose
    rfl
  | case6 depth c cs hlast hslash hdollar hclose length closed _ ih =>
    have hc : c ≠ '\\' := by
      cases cs with
      | nil => exact fun hc => hlast hc rfl
      | cons d cs => exact fun hc => hslash d cs hc rfl
    have hhead : c = '$' → cs.head? ≠ some '\x7b' := by
      intro hc hhead
      obtain ⟨rest, rfl⟩ := List.head?_eq_some_iff.1 hhead
      exact hdollar rest hc rfl
    rw [template_cons hc hhead, if_neg hclose] at h ⊢
    -- What is left of the text has the same first character.
    have hhead' (n : Nat) : c = '$' → (cs.take (n + 1)).head? ≠ some '\x7b' := by
      cases cs with
      | nil => exact hhead
      | cons d cs => exact hhead
    rw [List.take_succ_cons, template_cons hc (hhead' _), if_neg hclose]
    exact ih h

/-! ## Literals -/

/-- Whether the text of a string or template literal reaches its closing mark. -/
def isClosed : List Char → Bool
  | [] => false
  | c :: cs => if c = '\x60' then (template 0 cs).2 else stringCloses c cs

end DeclLayer.Literal
