import DeclLayer.Toml.Scalar

/-!
# Reading a TOML document

A document is a sequence of lines: headers, which choose a table, and key-value pairs, which are
entered into the chosen table. `parse?` answers the root table of a well-formed document, and
nothing for any other text.
-/

namespace DeclLayer.Toml

open Text

/-- Reads from some characters on, if they are well formed. -/
abbrev Reader := StateT (List Char) Option

namespace Reader

/-- The next character. -/
def peek? : Reader (Option Char) := return (← get).head?

/-- Passes a number of characters. -/
def skip (n : Nat) : Reader Unit := modify (List.drop n)

/-- Passes spaces and tabs. -/
def skipSpaces : Reader Unit := modify (List.dropWhile isSpace)

/-- Passes a character if it is the next one, and tells whether it was. -/
def accept (c : Char) : Reader Bool := do
  if (← peek?) = some c then
    skip 1
    return true
  else return false

/-- Passes a character that has to be there. -/
def expect (c : Char) : Reader Unit := do
  if ← accept c then return () else failure

/-- Passes a line end if there is one, and tells whether there was. -/
def acceptLineEnd : Reader Bool := do
  let n := lineEndLength (← get)
  skip n
  return 0 < n

/-- Passes a comment if there is one. -/
def skipComment : Reader Unit := do
  if ← accept '#' then modify (List.dropWhile isPlain)

/-- Passes the rest of a line on which nothing more may stand. -/
def endLine : Reader Unit := do
  skipSpaces
  skipComment
  if ← acceptLineEnd then return ()
  if (← get).isEmpty then return () else failure

/-- One turn more than there are characters left. -/
def turns : Reader Nat := return (← get).length + 1

/-- Passes spaces, comments and line ends, in at most the given number of turns. -/
def skipFillerFor : Nat → Reader Unit
  | 0 => failure
  | n + 1 => do
    skipSpaces
    if (← peek?) = some '#' then
      skipComment
      if ← acceptLineEnd then skipFillerFor n else failure
    else if ← acceptLineEnd then skipFillerFor n
    else return ()

/-- Passes spaces, comments and line ends. -/
def skipFiller : Reader Unit := do
  skipFillerFor (← turns)

/-! ## Keys -/

/-- Whether a character can stand in a key without quotes. -/
def isKeyChar (c : Char) : Bool :=
  c.isAlphanum || c == '_' || c == '-'

/-- Reads one word of a key. -/
def keyWord : Reader String := do
  match ← get with
  | '"' :: cs =>
    let (value, rest) ← basicString cs
    set rest
    return String.ofList value
  | '\'' :: cs =>
    let (value, rest) ← literalString cs
    set rest
    return String.ofList value
  | cs =>
    let word := cs.takeWhile isKeyChar
    if word.isEmpty then failure
    set (cs.drop word.length)
    return String.ofList word

/-- How many words a key has, and how deep arrays and tables in braces nest, at most. -/
def deepest : Nat := 79

/-- Reads a dotted key of at most the given number of words. -/
def keyFor : Nat → Reader (List String)
  | 0 => failure
  | n + 1 => do
    skipSpaces
    let word ← keyWord
    skipSpaces
    if ← accept '.' then
      let words ← keyFor n
      return word :: words
    else return [word]

/-- Reads a key: the words that lead to it, and its last word. -/
def key : Reader (List String × String) := do
  let words ← keyFor deepest
  match words.getLast? with
  | some word => return (words.dropLast, word)
  | none => failure

/-! ## Values -/

/-- Reads a key and its value, given the reader for values. -/
def pair (value : Reader Value) : Reader (List String × String × Value) := do
  let (words, word) ← key
  expect '='
  skipSpaces
  let v ← value
  return (words, word, v)

/-- Reads the elements of an array up to its closing bracket, in at most the given number of
turns. A comma may stand after the last element. -/
def elementsFor (value : Reader Value) : Nat → Reader (List Value)
  | 0 => failure
  | n + 1 => do
    skipFiller
    if ← accept ']' then return []
    let first ← value
    skipFiller
    if ← accept ',' then
      let others ← elementsFor value n
      return first :: others
    else
      expect ']'
      return [first]

/-- Reads the pairs of a table in braces, in at most the given number of turns. -/
def pairsFor (value : Reader Value) (entries : Entries) : Nat → Reader Entries
  | 0 => failure
  | n + 1 => do
    skipSpaces
    let (words, word, v) ← pair value
    let entries ← entries.addDotted words word v
    skipSpaces
    if ← accept ',' then pairsFor value entries n
    else
      expect '\x7d'
      return entries

/-- Reads a table in braces after the opening one. -/
def braced (value : Reader Value) : Reader Entries := do
  skipSpaces
  if ← accept '\x7d' then return []
  pairsFor value [] (← turns)

/-- Reads a value without other values in it. -/
def leaf : Reader Value := do
  match ← get with
  | '"' :: cs =>
    let (text, rest) ← string ('"' :: cs)
    set rest
    return .string text
  | '\'' :: cs =>
    let (text, rest) ← string ('\'' :: cs)
    set rest
    return .string text
  | cs =>
    let (v, rest) ← scalar cs
    set rest
    return v

/-- Reads a value with at most the given number of levels of nesting. -/
def valueAt : Nat → Reader Value
  | 0 => leaf
  | n + 1 => do
    if ← accept '[' then
      return .array (← elementsFor (valueAt n) (← turns))
    else if ← accept '\x7b' then
      return .table .braces (← braced (valueAt n))
    else leaf

/-- Reads a value. -/
def value : Reader Value := valueAt deepest

/-! ## Lines -/

/-- What has been read of a document. -/
structure Progress where
  root : Entries
  /-- The path of the table that the last header chose. -/
  current : List String

/-- Reads a header after its first bracket. -/
def header (p : Progress) : Reader Progress := do
  let isElement ← accept '['
  let (words, word) ← key
  expect ']'
  if isElement then
    expect ']'
    return ⟨← p.root.within words (Entries.openElement word), words ++ [word]⟩
  else return ⟨← p.root.within words (Entries.openTable word), words ++ [word]⟩

/-- Reads what stands on a line. -/
def line (p : Progress) : Reader Progress := do
  skipSpaces
  match ← peek? with
  | none | some '#' | some '\n' | some '\r' =>
    endLine
    return p
  | some '[' =>
    skip 1
    let p ← header p
    endLine
    return p
  | some _ =>
    let (words, word, v) ← pair value
    endLine
    return { p with root := ← p.root.within p.current (Entries.addDotted words word v) }

/-- Reads lines to the end, in at most the given number of turns. -/
def linesFor (p : Progress) : Nat → Reader Entries
  | 0 => failure
  | n + 1 => do
    if (← get).isEmpty then return p.root
    let p ← line p
    linesFor p n

/-- Reads a document. A byte order mark may stand at its front. -/
def document : Reader Entries := do
  discard (accept '\uFEFF')
  linesFor ⟨[], []⟩ (← turns)

end Reader

/-- The root table of a document. -/
def parse? (text : String) : Option Entries :=
  (Reader.document.run text.toList).map Prod.fst

end DeclLayer.Toml
