import DeclLayer.Text.Basic

/-!
# Quoted text

`quote` writes a text as a double-quoted literal on one line: no control character and no white
space other than the space stands in it. Reading such a literal back is the scanner's work.
-/

namespace DeclLayer.Text

/-- Whether a character is written as the code of its (only) UTF-16 unit. All these characters lie
in the basic plane. -/
def needsCode (c : Char) : Bool :=
  isControl c || (isBlank c && c != ' ') || c == '\uFEFF'

/-- One character of a quoted text. The character after it decides whether a null may be written
`\0`: a digit there would be read as part of the escape. -/
def quoteChar (c : Char) (next : Option Char) : List Char :=
  match c with
  | '"' => ['\\', '"']
  | '\\' => ['\\', '\\']
  | '\n' => ['\\', 'n']
  | '\r' => ['\\', 'r']
  | '\t' => ['\\', 't']
  | '\x00' => if next.any Char.isDigit then '\\' :: 'u' :: upperHex4 0 else ['\\', '0']
  | '\x08' => ['\\', 'b']
  | '\x0b' => ['\\', 'v']
  | '\x0c' => ['\\', 'f']
  | c => if needsCode c then '\\' :: 'u' :: upperHex4 c.toNat else [c]

/-- The inside of a quoted text. -/
def quoteBody : List Char → List Char
  | [] => []
  | c :: cs => quoteChar c cs.head? ++ quoteBody cs

/-- A text as a double-quoted literal. -/
def quote (s : String) : String :=
  String.ofList ('"' :: quoteBody s.toList ++ ['"'])

end DeclLayer.Text
