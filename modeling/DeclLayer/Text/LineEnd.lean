import DeclLayer.Text.Basic

/-!
# Line ends

`normalize` gives a text uniform line ends, takes away the spaces before them, and leaves one at the
end of the text. A text of empty lines becomes empty.
-/

namespace DeclLayer

/-- What ends a line. -/
inductive LineEnd where
  | lf
  | crlf
  deriving DecidableEq, Repr

namespace LineEnd

open Text

/-- The characters of a line end. -/
def text : LineEnd → String
  | .lf => "\n"
  | .crlf => "\r\n"

/-- A line without a carriage return at its end, and then without spaces at its end. -/
def cleanLine (line : List Char) : List Char :=
  let line := if line.getLast? = some '\r' then line.dropLast else line
  dropBackWhile (· == ' ') line

/-- The lines of a text as they are written: cleaned, and without the empty lines at the end. -/
def cleanLines (s : String) : List (List Char) :=
  dropBackWhile List.isEmpty ((splitAt '\n' s.toList).map cleanLine)

/-- A text with uniform line ends. -/
def normalize (lineEnd : LineEnd) (s : String) : String :=
  String.join ((cleanLines s).map fun line => String.ofList line ++ lineEnd.text)

end LineEnd

end DeclLayer
