import DeclLayer.Token.Comment
import DeclLayer.Token.Kind
import DeclLayer.Token.Literal

/-!
# Scanning

A source is cut into *lexemes* first: pieces of text without a place, whose concatenation is the
source again. Each lexeme is a token, a documentation comment or something skipped. `locate` then
gives every token its place, by adding up the sizes of the lexemes before it, and the documentation
comments since the last token.

Every source can be scanned. Characters that begin no token are skipped, and a literal or comment
that is not closed reaches to the end.
-/

namespace DeclLayer.Token

open Text

/-- What a lexeme contributes to the tokens. -/
inductive Content where
  | token (kind : Kind)
  /-- A documentation comment with its cleaned text. -/
  | doc (text : String)
  /-- White space, a comment or an unknown character. -/
  | skipped
  deriving DecidableEq, Repr

/-- A piece of the source. -/
structure Lexeme where
  raw : List Char
  content : Content
  deriving DecidableEq, Repr

/-- The punctuation marks that are one character and begin no longer token. -/
def simplePunct? : Char → Option Punct
  | '(' => some .lparen
  | ')' => some .rparen
  | '\x7b' => some .lbrace
  | '\x7d' => some .rbrace
  | '[' => some .lbracket
  | ']' => some .rbracket
  | '<' => some .langle
  | '>' => some .rangle
  | ',' => some .comma
  | ';' => some .semicolon
  | ':' => some .colon
  | '?' => some .question
  | '|' => some .pipe
  | '&' => some .amp
  | '+' => some .plus
  | '-' => some .minus
  | '*' => some .star
  | _ => none

/-- The token that a word stands for. -/
def wordKind (word : String) : Kind :=
  match Keyword.ofText? word with
  | some k => .keyword k
  | none => .ident word

/-- Reads a lexeme that begins with a dot. Two dots are one token, like a single dot. -/
def dots : List Char → Content × Nat
  | '.' :: '.' :: _ => (.token (.punct .ellipsis), 2)
  | '.' :: _ => (.token (.punct .dot), 1)
  | _ => (.token (.punct .dot), 0)

/-- Reads a lexeme that begins with a slash: a comment, a directive or the mark itself. White space
after three slashes, line ends included, does not count as the directive's text. -/
def slashes : List Char → Content × Nat
  | '/' :: '/' :: cs =>
    let blanks := (cs.takeWhile isBlank).length
    let content := (cs.drop blanks).takeWhile (· != '\n')
    match Comment.directive? content with
    | some text => (.token (.directive text), 2 + blanks + content.length)
    | none => (.skipped, 2 + blanks + content.length)
  | '/' :: cs => (.skipped, 1 + Comment.lineLength cs)
  | '*' :: cs =>
    let (length, closed) := Comment.block cs
    let read := 1 + length + (if closed then 2 else 0)
    match cs.take length with
    | '*' :: body =>
      match Comment.cleanDoc body with
      | some text => (.doc text, read)
      | none => (.skipped, read)
    | _ => (.skipped, read)
  | _ => (.token (.punct .slash), 0)

/-- Reads the lexeme that begins with the character `c`, which is followed by `cs`: what it is, and
how many characters of `cs` belong to it. -/
def lexeme (c : Char) (cs : List Char) : Content × Nat :=
  match simplePunct? c with
  | some p => (.token (.punct p), 0)
  | none =>
    if c = '\x60' then
      let (length, closed) := Literal.template 0 cs
      (.token (.template (String.ofList (cs.take length))), length + (if closed then 1 else 0))
    else if c = '.' then dots cs
    else if c = '=' then
      if cs.head? = some '>' then (.token (.punct .arrow), 1) else (.token (.punct .eq), 0)
    else if c = '/' then slashes cs
    else if c = '"' ∨ c = '\'' then
      let (value, read) := Literal.string c cs
      (.token (.string (String.ofList value)), read)
    else if c.isDigit then
      let length := Literal.numberLength (c == '0' && cs.head? == some 'x') c cs
      (.token (.number (String.ofList (c :: cs.take length))), length)
    else if Literal.isIdentStart c then
      let length := Literal.identLength cs
      (.token (wordKind (String.ofList (c :: cs.take length))), length)
    else if c = '#' ∧ cs.head?.any (fun d => d.isAlpha || d == '_') then
      let length := Literal.identLength cs
      (.token (.ident (String.ofList (c :: cs.take length))), length)
    else (.skipped, 0)

/-- The lexemes of a source, in order. -/
def lexemes : List Char → List Lexeme
  | [] => []
  | c :: cs =>
    let (content, read) := lexeme c cs
    ⟨c :: cs.take read, content⟩ :: lexemes (cs.drop read)
termination_by cs => cs.length
decreasing_by simp only [List.length_cons, List.length_drop]; omega

/-- Gives the tokens among the lexemes their places, starting at the byte `pos` with the
documentation comments `docs` waiting. The last token is the end of the text. -/
def locate (pos : Nat) (docs : List String) : List Lexeme → List Token
  | [] => [⟨.eof, pos, pos, docs⟩]
  | l :: ls =>
    let stop := pos + utf8Size l.raw
    match l.content with
    | .token kind => ⟨kind, pos, stop, docs⟩ :: locate stop [] ls
    | .doc text => locate stop (docs ++ [text]) ls
    | .skipped => locate stop docs ls

/-- The tokens of a source, ending with the end of the text. -/
def scan (source : String) : List Token :=
  locate 0 [] (lexemes source.toList)

end DeclLayer.Token
