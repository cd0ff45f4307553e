import DeclLayer.Text.Basic
import DeclLayer.Toml.Value

/-!
# Writing TOML

The text of strings, arrays of strings and lines. A string takes the plainest form that it fits
into.
-/

namespace DeclLayer.Toml

open Text

/-- Whether a character needs an escape: the controls but tab and line feed. -/
def needsEscape (c : Char) : Bool :=
  (c.toNat ≤ 0x1F && c != '\t' && c != '\n') || c.toNat == 0x7F

/-- Whether a character stands three times in a row. -/
def hasTriple (c : Char) : List Char → Bool
  | a :: b :: d :: cs => (a == c && b == c && d == c) || hasTriple c (b :: d :: cs)
  | _ => false

/-- One character between double quotes, other than a double quote. -/
def escapeChar (multiline : Bool) (c : Char) : List Char :=
  match c with
  | '\x08' => ['\\', 'b']
  | '\t' => ['\\', 't']
  | '\n' => if multiline then ['\n'] else ['\\', 'n']
  | '\x0c' => ['\\', 'f']
  | '\r' => ['\\', 'r']
  | '\\' => ['\\', '\\']
  | c => if needsEscape c then '\\' :: 'u' :: upperHex4 c.toNat else [c]

/-- The inside of a string in double quotes, when `seen` double quotes were just written. On several
lines two of them in a row stand for themselves. -/
def escapeBody (multiline : Bool) (seen : Nat) : List Char → List Char
  | [] => []
  | '"' :: cs =>
    if multiline && seen < 2 then '"' :: escapeBody multiline (seen + 1) cs
    else '\\' :: '"' :: escapeBody multiline 0 cs
  | c :: cs => escapeChar multiline c ++ escapeBody multiline 0 cs

/-- A text between quotes on several lines. A text with a line end begins on a line of its own. -/
def multilineText (quotes : String) (hasLineEnd : Bool) (body : List Char) : String :=
  quotes ++ (if hasLineEnd then "\n" else "") ++ String.ofList body ++ quotes

/-- The text of a string: the first form of these that can hold it. Plain in double quotes; as it is
in single quotes; on several lines in double quotes; on several lines in single quotes; with
escapes. -/
def stringText (s : String) : String :=
  let cs := s.toList
  let clean := !cs.any needsEscape
  let backslash := cs.contains '\\'
  let newline := cs.contains '\n'
  let onLine := "\"" ++ String.ofList (escapeBody false 0 cs) ++ "\""
  let onLines := multilineText "\"\"\"" newline (escapeBody true 0 cs)
  if clean && !backslash && !cs.contains '"' && !newline then onLine
  else if clean && !cs.contains '\'' && !newline then "'" ++ s ++ "'"
  else if clean && !backslash && !hasTriple '"' cs then onLines
  else if clean && !hasTriple '\'' cs then multilineText "'''" newline cs
  else if newline then onLines
  else onLine

/-- The text of an array of strings: on one line up to one element, and on a line each otherwise. -/
def stringsText : List String → String
  | [] => "[]"
  | [s] => "[" ++ stringText s ++ "]"
  | ss => "[\n" ++ String.join (ss.map fun s => "    " ++ stringText s ++ ",\n") ++ "]"

/-- The text of a truth value. -/
def booleanText (b : Bool) : String :=
  if b then "true" else "false"

/-- A line that gives a key its value. -/
def entryLine (key value : String) : String :=
  key ++ " = " ++ value ++ "\n"

end DeclLayer.Toml
