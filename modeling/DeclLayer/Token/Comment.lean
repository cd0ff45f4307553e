import DeclLayer.Text.Basic

/-!
# Comments

Comments are skipped, with two exceptions: a documentation comment is kept for the token after it,
and a reference directive is a token of its own. `cleanDoc` takes the text of a documentation
comment out of its gutter of stars.
-/

namespace DeclLayer.Comment

open Text

/-- Measures a block comment after its opening mark: the length of the body, and whether a closing
mark follows. -/
def block : List Char → Nat × Bool
  | [] => (0, false)
  | '*' :: '/' :: _ => (0, true)
  | _ :: cs =>
    let (length, closed) := block cs
    (length + 1, closed)

/-- The number of characters up to the end of the line. -/
def lineLength (cs : List Char) : Nat :=
  (cs.takeWhile (· != '\n')).length

/-- A line of a documentation comment without its gutter: the white space in front, one star and
one space after it. -/
def cleanLine (line : List Char) : List Char :=
  let line := trimFront line
  let line := match line with
    | '*' :: rest => rest
    | rest => rest
  let line := match line with
    | ' ' :: rest => rest
    | rest => rest
  trimBack line

/-- The text of a documentation comment: its lines without the gutter, and without the empty lines
at both ends. A comment of empty lines only has none. -/
def cleanDoc (body : List Char) : Option String :=
  let lines := (linesOf body).map cleanLine
  match dropBackWhile List.isEmpty (lines.dropWhile List.isEmpty) with
  | [] => none
  | kept => some (joinWith "\n" (kept.map String.ofList))

/-- The value of an attribute in the text of a directive: what stands between its name, an equals
sign and a quote, and the next quote. -/
def attribute? (name : String) (content : List Char) : Option String :=
  match afterFirst? (name.toList ++ ['=', '"']) content with
  | none => none
  | some rest => (before? '"' rest).map String.ofList

/-- A reference directive: the line after three slashes names a path or a package of types. The
answer tells which attribute it is, and its value. -/
def directive? (content : List Char) : Option String :=
  if (after? "<reference".toList (trimFront content)).isSome then
    match attribute? "path" content with
    | some path => some ("path:" ++ path)
    | none => (attribute? "types" content).map ("types:" ++ ·)
  else none

end DeclLayer.Comment
