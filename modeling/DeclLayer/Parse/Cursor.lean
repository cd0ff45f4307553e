import DeclLayer.Parse.Error
import DeclLayer.Text.Quoted
import DeclLayer.Token.Scan
import DeclLayer.Tree.Type

/-!
# Reading tokens

A `Cursor` is a place in the tokens of a source, and a `Parser` reads from there: it answers a
value and a later place, or an error. The token of the end is never passed, so there is always a
current token.

The loops of the grammar are the combinators `many`, `list` and `more`. Each turn of a loop passes
at least one token, so a loop that is allowed one turn more than there are tokens ahead is never cut
short.
-/

namespace DeclLayer

/-- A place in the tokens of a source. -/
structure Cursor where
  /-- The characters of the source. -/
  source : List Char
  /-- The tokens ahead, without the token of the end. -/
  rest : List Token
  /-- The token of the end. -/
  last : Token

namespace Cursor

/-- The token of an end at byte `pos`. -/
def endToken (pos : Nat) : Token := ⟨.eof, pos, pos, []⟩

/-- The first place of a source. -/
def start (source : String) : Cursor :=
  let tokens := Token.scan source
  ⟨source.toList, tokens.dropLast, tokens.getLast?.getD (endToken source.utf8ByteSize)⟩

/-- The token at a place. -/
def current (c : Cursor) : Token := c.rest.headD c.last

/-- The kind of the token `n` tokens ahead. -/
def kindAt (c : Cursor) (n : Nat) : Kind := (c.rest.getD n c.last).kind

/-- The place after the current token. The end is never passed. -/
def next (c : Cursor) : Cursor := { c with rest := c.rest.tail }

end Cursor

/-- Reads a value from a place on. -/
abbrev Parser := StateT Cursor (Except SyntaxError)

namespace Parser

/-! ## Single tokens -/

/-- The kind of the current token. -/
def peek : Parser Kind := return (← get).kindAt 0

/-- The kind of the token `n` tokens ahead. -/
def peekAt (n : Nat) : Parser Kind := return (← get).kindAt n

/-- The documentation comments before the current token. -/
def docs : Parser Docs := return (← get).current.docs

/-- Passes the current token. -/
def skip : Parser Unit := modify Cursor.next

/-- Refuses the source at the current token. -/
def fail {α : Type} (cause : SyntaxCause) : Parser α := do
  throw ⟨cause, (← get).current.start⟩

/-- Whether the current token is of a kind. -/
def check (kind : Kind) : Parser Bool := return (← peek) == kind

/-- Passes the current token if it is of a kind, and tells whether it was. -/
def accept (kind : Kind) : Parser Bool := do
  if ← check kind then
    skip
    return true
  else return false

/-- Passes a token that has to be of a kind. -/
def expect (kind : Kind) : Parser Unit := do
  let found ← peek
  if found == kind then skip else fail (.expected kind found)

/-- Whether the current token is a keyword. -/
def checkKeyword (k : Keyword) : Parser Bool := check (.keyword k)

/-- Whether the current token is a mark. -/
def checkMark (p : Punct) : Parser Bool := check (.punct p)

/-- Passes the current token if it is a keyword. -/
def acceptKeyword (k : Keyword) : Parser Bool := accept (.keyword k)

/-- Passes the current token if it is a mark. -/
def acceptMark (p : Punct) : Parser Bool := accept (.punct p)

/-- Passes a token that has to be a keyword. -/
def expectKeyword (k : Keyword) : Parser Unit := expect (.keyword k)

/-- Passes a token that has to be a mark. -/
def expectMark (p : Punct) : Parser Unit := expect (.punct p)

/-! ## Choices and loops -/

/-- Reads a value, or nothing from the same place if that fails. -/
def attempt {α : Type} (p : Parser α) : Parser (Option α) := fun c =>
  match p c with
  | .ok (a, c') => .ok (some a, c')
  | .error _ => .ok (none, c)

/-- Reads a value if the current token is of a kind, which is passed first. -/
def after {α : Type} (kind : Kind) (p : Parser α) : Parser (Option α) := do
  if ← accept kind then return some (← p) else return none

/-- One turn more than there are tokens ahead. -/
def turns : Parser Nat := return (← get).rest.length + 1

/-- Whether a list that ends with a mark, or with the source, is over. -/
def atEnd (close : Punct) : Parser Bool := do
  let kind ← peek
  return kind == .punct close || kind == .eof

/-- Reads pieces until the list is over, in at most the given number of turns. -/
def manyFor {α : Type} (isOver : Parser Bool) (piece : Parser (List α)) : Nat → Parser (List α)
  | 0 => fail .tooDeep
  | n + 1 => do
    if ← isOver then return []
    let found ← piece
    let others ← manyFor isOver piece n
    return found ++ others

/-- Reads pieces until the list is over. -/
def many {α : Type} (isOver : Parser Bool) (piece : Parser (List α)) : Parser (List α) := do
  manyFor isOver piece (← turns)

/-- Reads elements separated by commas until the closing mark, in at most the given number of
turns. A comma may stand before the closing mark, and an element without a comma is the last. -/
def listFor {α : Type} (close : Punct) (element : Parser α) : Nat → Parser (List α)
  | 0 => fail .tooDeep
  | n + 1 => do
    if ← atEnd close then return []
    let first ← element
    if ← acceptMark .comma then
      let others ← listFor close element n
      return first :: others
    else return [first]

/-- Reads elements separated by commas until the closing mark. -/
def list {α : Type} (close : Punct) (element : Parser α) : Parser (List α) := do
  listFor close element (← turns)

/-- Reads further elements, each after a separator, in at most the given number of turns. -/
def moreFor {α : Type} (separator : Punct) (element : Parser α) : Nat → Parser (List α)
  | 0 => fail .tooDeep
  | n + 1 => do
    if ← acceptMark separator then
      let first ← element
      let others ← moreFor separator element n
      return first :: others
    else return []

/-- Reads further elements, each after a separator. -/
def more {α : Type} (separator : Punct) (element : Parser α) : Parser (List α) := do
  moreFor separator element (← turns)

/-- Reads one or more elements with a separator between neighbours. -/
def separated {α : Type} (separator : Punct) (element : Parser α) : Parser (List α) := do
  let first ← element
  let others ← more separator element
  return first :: others

/-! ## Source text as written -/

/-- The nesting depth after a token. Closing marks that close nothing are ignored. -/
def bracketDepth (depth : Nat) : Kind → Nat
  | .punct .lparen | .punct .lbracket | .punct .lbrace => depth + 1
  | .punct .rparen | .punct .rbracket | .punct .rbrace => depth - 1
  | _ => depth

/-- Passes tokens until every bracket is closed: the end of the last token passed, and the tokens
after it. -/
def passBalanced (depth stop : Nat) : List Token → Nat × List Token
  | [] => (stop, [])
  | t :: ts =>
    let depth := bracketDepth depth t.kind
    if depth = 0 then (t.stop, ts) else passBalanced depth t.stop ts

/-- Whether a token ends an initializer. -/
def endsInitializer (kind : Kind) : Bool :=
  kind == .punct .comma || kind == .punct .rbrace || kind == .punct .semicolon

/-- Passes the tokens of an initializer: up to a comma, a semicolon or a closing brace outside all
brackets. -/
def passInitializer (depth stop : Nat) : List Token → Nat × List Token
  | [] => (stop, [])
  | t :: ts =>
    if depth = 0 && endsInitializer t.kind then (stop, t :: ts)
    else passInitializer (bracketDepth depth t.kind) t.stop ts

/-- Passes tokens with the given function, and answers the source text of what was passed. -/
def sourceText (pass : Nat → List Token → Nat × List Token) : Parser String := do
  let c ← get
  let start := c.current.start
  let (stop, rest) := pass start c.rest
  set { c with rest := rest }
  return String.ofList (Text.slice c.source start stop)

/-- The source text of a bracketed piece that begins at the current token. -/
def balanced : Parser String := sourceText (passBalanced 0)

/-- The source text of an initializer, without the white space around it. -/
def initializer : Parser String := return Text.trim (← sourceText (passInitializer 0))

/-- Passes everything up to and including the next semicolon. -/
def skipStatement : Parser Unit := do
  modify fun c => { c with rest := c.rest.dropWhile (·.kind != .punct .semicolon) }
  discard (acceptMark .semicolon)

/-! ## Names -/

/-- Reads an identifier. Keywords that are not reserved everywhere count as such. -/
def identifier : Parser String := do
  match ← peek with
  | .ident name =>
    skip
    return name
  | .keyword k =>
    if k.contextual then
      skip
      return k.text
    else fail (.expectedIdentifier (.keyword k))
  | kind => fail (.expectedIdentifier kind)

/-- Reads a property name, spelled the way it has to be written: any word, a string, a number or a
computed name. -/
def propertyName : Parser String := do
  match ← peek with
  | .ident name =>
    skip
    return name
  | .string value =>
    skip
    return Text.quote value
  | .number text =>
    skip
    return text
  | .punct .lbracket => balanced
  | .keyword k =>
    skip
    return k.text
  | kind => fail (.expectedPropertyName kind)

/-- The words of a dotted name after its first one, each with the dot before it, and the tokens
after them. A dot counts only if a word follows. -/
def dottedTail : List Token → String × List Token
  | dot :: word :: ts =>
    if dot.kind = .punct .dot then
      match word.kind with
      | .ident name =>
        let (tail, rest) := dottedTail ts
        ("." ++ name ++ tail, rest)
      | .keyword k =>
        let (tail, rest) := dottedTail ts
        ("." ++ k.text ++ tail, rest)
      | _ => ("", dot :: word :: ts)
    else ("", dot :: word :: ts)
  | ts => ("", ts)

/-- Reads the words of a dotted name after its first one. -/
def qualifiedTail : Parser String := do
  let c ← get
  let (tail, rest) := dottedTail c.rest
  set { c with rest := rest }
  return tail

/-- Whether the current word is a modifier of what follows, and not itself a name. A name is
followed by a mark that continues or ends a member. -/
def isModifier : Parser Bool := do
  match ← peekAt 1 with
  | .punct p =>
    return !(p == .colon || p == .question || p == .lparen || p == .langle || p == .semicolon ||
      p == .comma || p == .rbrace || p == .eq)
  | _ => return true

end Parser

end DeclLayer
