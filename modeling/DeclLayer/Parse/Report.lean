import DeclLayer.Parse.Error
import DeclLayer.Store.Path
import DeclLayer.Text.Columns

/-!
# Reports

A report shows a message with the line that it is about, and marks one character of that line:

```text
error: expected RBrace, found Eof
  ┌─ lib.d.ts:1:15
  │
1 │ enum A { B = 1
  │               ^ error occurs here
```

The character is given by a byte of the text: `Span.ofByte` widens the byte to the character that
holds it, and `Place.ofByte` finds the line. A mark behind the end of a line still shows as one
column, and a line end is marked by a bracket from its line to the next one.
-/

namespace DeclLayer

/-- A range of bytes of a text. -/
structure Span where
  start : Nat
  stop : Nat
  deriving DecidableEq, Repr

namespace Span

/-- The bytes of the character that holds the byte `pos`, among characters that begin at the byte
`offset`. Behind them there is the empty range at their end. -/
def around (pos offset : Nat) : List Char → Span
  | [] => ⟨offset, offset⟩
  | c :: cs =>
    if pos < offset + c.utf8Size then ⟨offset, offset + c.utf8Size⟩
    else around pos (offset + c.utf8Size) cs

/-- The bytes of the character that holds a byte of a text, or the empty range at the end of the
text. -/
def ofByte (text : String) (pos : Nat) : Span :=
  around pos 0 text.toList

end Span

/-- A place between two characters of a text. -/
structure Place where
  /-- The number of the line, counted from one. -/
  line : Nat
  /-- What precedes the place in its line. -/
  before : List Char
  /-- What follows the place in the text. -/
  after : List Char
  deriving DecidableEq, Repr

namespace Place

/-- The place before the character that holds the byte `pos` of the remaining text, or at the end of
the text. The characters of the line so far are `before`, the last one first. -/
def seek (line : Nat) (before : List Char) : Nat → List Char → Place
  | _, [] => ⟨line, before.reverse, []⟩
  | pos, c :: cs =>
    if pos < c.utf8Size then ⟨line, before.reverse, c :: cs⟩
    else if c = '\n' then seek (line + 1) [] (pos - c.utf8Size) cs
    else seek line (c :: before) (pos - c.utf8Size) cs

/-- The place before the character that holds a byte of a text, or at the end of the text. -/
def ofByte (text : String) (pos : Nat) : Place :=
  seek 1 [] pos text.toList

/-- The column of a place, in characters from one. -/
def column (p : Place) : Nat := p.before.length + 1

end Place

namespace Report

/-- The text that explains a mark. -/
def note : String := "error occurs here"

/-- Line ends and null characters, which a line is shown without if they are at its end. -/
def isUnshown (c : Char) : Bool :=
  c = '\n' || c = '\r' || c = '\x00'

/-- The characters of a line that are shown. -/
def shown (line : List Char) : List Char :=
  Text.dropBackWhile isUnshown line

/-- A line with its tabs filled up. -/
def lineText (line : List Char) : String :=
  String.ofList (Text.expandTabs 0 (shown line))

/-- A character some number of times. -/
def run (count : Nat) (c : Char) : String :=
  String.ofList (List.replicate count c)

/-- The marks below the character `c?` that follows `before` in a line of which `visible` is shown.
What is not shown has the one column behind the line at the most. -/
def marks (before : List Char) (c? : Option Char) (visible : List Char) : String :=
  if before.length < visible.length then
    let column := Text.columnAfter 0 before
    run column ' ' ++ run ((c?.map (Text.widthAt column)).getD 1) '^'
  else
    run (Text.columnAfter 0 visible) ' ' ++
      if before.length = visible.length then "^" else " "

/-- The left border of a report, with a line number filled up to `width` or with none. -/
def border (width : Nat) (number : Option Nat) : String :=
  let text := (number.map toString).getD ""
  run (width - text.length) ' ' ++ text ++ " │"

/-- The number of digits of a line number. -/
def digits (line : Nat) : Nat := (toString line).length

/-- The lines that show a mark inside a line. -/
def singleLine (place : Place) : List String :=
  let border := border (digits place.line)
  let line := place.before ++ place.after.takeWhile (· != '\n')
  [border none,
    border (some place.line) ++ " " ++ lineText line,
    border none ++ " " ++ marks place.before place.after.head? (shown line) ++ " " ++ note]

/-- The lines that show a mark at the end of a line, which reaches to the start of the next one.
The bracket opens before the line if nothing but white space precedes the mark, and below it
otherwise. -/
def lineEnd (place : Place) (next : List Char) : List String :=
  let border := border (digits (place.line + 1))
  let visible := shown place.before
  let blank := visible.takeWhile Text.isBlank
  let opening :=
    if place.before.length ≤ blank.length then
      [border (some place.line) ++ " ╭ " ++ lineText visible]
    else
      [border (some place.line) ++ "   " ++ lineText visible,
        border none ++ " ╭" ++ run (Text.columnAfter 0 visible) '─' ++ "^"]
  [border none ++ "  "] ++ opening ++
    [border (some (place.line + 1)) ++ " │ " ++ lineText (next.takeWhile (· != '\n')),
      border none ++ " ╰^ " ++ note]

/-- The lines of a report below its message. -/
def snippet (path : Path) (place : Place) : List String :=
  let (last, lines) := match place.after with
    | '\n' :: next => (place.line + 1, lineEnd place next)
    | _ => (place.line, singleLine place)
  let location := path.text ++ ":" ++ toString place.line ++ ":" ++ toString place.column
  (run (digits last) ' ' ++ " ┌─ " ++ location) :: lines

/-- The report of a message about a byte of a file. -/
def render (path : Path) (text message : String) (pos : Nat) : String :=
  let place := Place.ofByte text (Span.ofByte text pos).start
  let lines := ("error: " ++ message) :: snippet path place
  String.join (lines.map (· ++ "\n")) ++ "\n"

end Report

/-- The report of a syntax error in a file. -/
def SyntaxError.report (e : SyntaxError) (path : Path) (text : String) : String :=
  Report.render path text e.cause.message e.pos

end DeclLayer
