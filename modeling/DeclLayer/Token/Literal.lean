import DeclLayer.Text.Basic

/-!
# Literals

Readers for the literals of declaration files: strings with their escapes, templates, numbers and
identifiers. A reader looks at the characters that follow the first one of the literal and answers
what it read and how many characters that took; the caller drops them. Literals that the text ends
in the middle of end there.
-/

namespace DeclLayer.Literal

open Text

/-! ## Escapes -/

/-- Reads hexadecimal digits up to a closing brace. A character that is no digit, and a digit that
takes the value past 32 bits, ends the escape and belongs to it. -/
def bracedDigits (digits acc : Nat) : List Char → Option Nat × Nat
  | [] => (if digits = 0 then none else some acc, 0)
  | c :: cs =>
    if c = '\x7d' then (if digits = 0 then none else some acc, 1)
    else match hexValue? c with
      | none => (none, 1)
      | some d =>
        if acc * 16 + d < UInt32.size then
          let (code, read) := bracedDigits (digits + 1) (acc * 16 + d) cs
          (code, read + 1)
        else (none, 1)

/-- Reads a code: four hexadecimal digits, or any number of them in braces. -/
def code (cs : List Char) : Option Nat × Nat :=
  match cs with
  | '\x7b' :: cs =>
    let (value, read) := bracedDigits 0 0 cs
    (value, read + 1)
  | cs => hexDigits 4 0 cs

/-- The low half of a surrogate pair: a second escape directly after the first one. -/
def lowSurrogate (high : Nat) (cs : List Char) : Option Char × Nat :=
  match cs with
  | '\\' :: 'u' :: cs =>
    let (low, read) := code cs
    let paired := low.bind fun low =>
      if 0xDC00 ≤ low ∧ low < 0xE000 then
        charOfCode? (0x10000 + (high - 0xD800) * 1024 + (low - 0xDC00))
      else none
    (paired, read + 2)
  | _ => (none, 0)

/-- Reads the character of a `\u` escape. A high surrogate must be followed by the escape of a low
one. -/
def unicodeEscape (cs : List Char) : Option Char × Nat :=
  let (value, read) := code cs
  match value with
  | none => (none, read)
  | some n =>
    if 0xD800 ≤ n ∧ n < 0xDC00 then
      let (c, more) := lowSurrogate n (cs.drop read)
      (c, read + more)
    else (charOfCode? n, read)

/-- The character that stands for an escape without meaning. -/
def replacement : Char := '\uFFFD'

/-- Reads an escape sequence after its backslash: the characters it stands for (none for a line
continuation) and how many characters it takes. An unknown escape stands for its own character. -/
def escape : List Char → List Char × Nat
  | [] => ([], 0)
  | 'n' :: _ => (['\n'], 1)
  | 't' :: _ => (['\t'], 1)
  | 'r' :: _ => (['\r'], 1)
  | 'b' :: _ => (['\x08'], 1)
  | 'f' :: _ => (['\x0c'], 1)
  | 'v' :: _ => (['\x0b'], 1)
  | '0' :: cs => if cs.head?.any Char.isDigit then (['0'], 1) else (['\x00'], 1)
  | 'x' :: cs =>
    let (value, read) := hexDigits 2 0 cs
    ([(value.bind charOfCode?).getD 'x'], read + 1)
  | 'u' :: cs =>
    let (c, read) := unicodeEscape cs
    ([c.getD replacement], read + 1)
  | '\n' :: _ | '\u2028' :: _ | '\u2029' :: _ => ([], 1)
  | '\r' :: '\n' :: _ => ([], 2)
  | '\r' :: _ => ([], 1)
  | c :: _ => ([c], 1)

/-! ## Strings and templates -/

/-- Reads the inside of a string up to its closing quote: the value, and the number of characters
with the closing quote. -/
def string (quote : Char) : List Char → List Char × Nat
  | [] => ([], 0)
  | c :: cs =>
    if c = '\\' then
      let (out, read) := escape cs
      let (value, more) := string quote (cs.drop read)
      (out ++ value, 1 + read + more)
    else if c = quote then ([], 1)
    else
      let (value, read) := string quote cs
      (c :: value, read + 1)
termination_by cs => cs.length
decreasing_by all_goals (simp only [List.length_cons, List.length_drop]; omega)

/-- Measures the inside of a template: its length, and whether a closing backtick follows.
Backticks inside a substitution do not close the template, and a backslash hides the character
after it. -/
def template (depth : Nat) : List Char → Nat × Bool
  | [] => (0, false)
  | '\\' :: [] => (1, false)
  | '\\' :: _ :: cs =>
    let (length, closed) := template depth cs
    (length + 2, closed)
  | '$' :: '\x7b' :: cs =>
    let (length, closed) := template (depth + 1) cs
    (length + 2, closed)
  | c :: cs =>
    if c = '\x60' ∧ depth = 0 then (0, true)
    else
      let (length, closed) := template (if c = '\x7d' then depth - 1 else depth) cs
      (length + 1, closed)

/-! ## Numbers and identifiers -/

/-- Whether a character can stand inside a number: this covers exponents, bases, separators and
suffixes. -/
def isNumberChar (c : Char) : Bool :=
  c.isAlphanum || c == '.' || c == '_'

/-- The number of characters that belong to a number after the character `last`. A sign belongs to
it directly after an exponent mark, but never in a hexadecimal number. -/
def numberLength (hex : Bool) (last : Char) : List Char → Nat
  | [] => 0
  | c :: cs =>
    if isNumberChar c || ((c == '-' || c == '+') && (last == 'e' || last == 'E') && !hex) then
      numberLength hex c cs + 1
    else 0

/-- Whether an identifier can begin with a character. -/
def isIdentStart (c : Char) : Bool :=
  c.isAlpha || c == '_' || c == '$'

/-- Whether a character can stand inside an identifier. -/
def isIdentChar (c : Char) : Bool :=
  c.isAlphanum || c == '_' || c == '$'

/-- The number of characters at the front that belong to an identifier. -/
def identLength (cs : List Char) : Nat :=
  (cs.takeWhile isIdentChar).length

end DeclLayer.Literal
