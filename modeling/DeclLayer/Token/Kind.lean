import DeclLayer.Text.Printable

/-!
# Tokens

A token is a kind with its place in the source and the documentation comments before it (`Token`).
Its kind is a word with a text of its own, a keyword, a punctuation mark, a reference directive or
the end of the text. Keywords are data: `Keyword.all` lists them, `Keyword.text` spells them, and
`Keyword.ofText?` looks a word up.

`Kind.describe` names a kind in error messages.
-/

namespace DeclLayer

/-- The reserved words of declaration files. Some are reserved in some positions only, see
`Keyword.contextual`. -/
inductive Keyword where
  | declare | function | interface | classKw | enum | type | namespaceKw | moduleKw | exportKw
  | importKw | const | letKw | var | readonly | extendsKw | implements | new | typeof | keyof
  | infer | asKw | is | fromKw | default | static | publicKw | privateKw | protectedKw | abstract
  | inKw | out | this | string | number | boolean | void | null | undefined | any | unknown
  | never | object | symbol | bigint | trueKw | falseKw
  deriving DecidableEq, Repr

namespace Keyword

/-- Every keyword. -/
def all : List Keyword :=
  [.declare, .function, .interface, .classKw, .enum, .type, .namespaceKw, .moduleKw, .exportKw,
    .importKw, .const, .letKw, .var, .readonly, .extendsKw, .implements, .new, .typeof, .keyof,
    .infer, .asKw, .is, .fromKw, .default, .static, .publicKw, .privateKw, .protectedKw,
    .abstract, .inKw, .out, .this, .string, .number, .boolean, .void, .null, .undefined, .any,
    .unknown, .never, .object, .symbol, .bigint, .trueKw, .falseKw]

/-- The spelling of a keyword. -/
def text : Keyword → String
  | .declare => "declare"
  | .function => "function"
  | .interface => "interface"
  | .classKw => "class"
  | .enum => "enum"
  | .type => "type"
  | .namespaceKw => "namespace"
  | .moduleKw => "module"
  | .exportKw => "export"
  | .importKw => "import"
  | .const => "const"
  | .letKw => "let"
  | .var => "var"
  | .readonly => "readonly"
  | .extendsKw => "extends"
  | .implements => "implements"
  | .new => "new"
  | .typeof => "typeof"
  | .keyof => "keyof"
  | .infer => "infer"
  | .asKw => "as"
  | .is => "is"
  | .fromKw => "from"
  | .default => "default"
  | .static => "static"
  | .publicKw => "public"
  | .privateKw => "private"
  | .protectedKw => "protected"
  | .abstract => "abstract"
  | .inKw => "in"
  | .out => "out"
  | .this => "this"
  | .string => "string"
  | .number => "number"
  | .boolean => "boolean"
  | .void => "void"
  | .null => "null"
  | .undefined => "undefined"
  | .any => "any"
  | .unknown => "unknown"
  | .never => "never"
  | .object => "object"
  | .symbol => "symbol"
  | .bigint => "bigint"
  | .trueKw => "true"
  | .falseKw => "false"

/-- The name of a keyword in error messages. -/
def label : Keyword → String
  | .declare => "Declare"
  | .function => "Function"
  | .interface => "Interface"
  | .classKw => "Class"
  | .enum => "Enum"
  | .type => "Type"
  | .namespaceKw => "Namespace"
  | .moduleKw => "Module"
  | .exportKw => "Export"
  | .importKw => "Import"
  | .const => "Const"
  | .letKw => "Let"
  | .var => "Var"
  | .readonly => "Readonly"
  | .extendsKw => "Extends"
  | .implements => "Implements"
  | .new => "New"
  | .typeof => "Typeof"
  | .keyof => "Keyof"
  | .infer => "Infer"
  | .asKw => "As"
  | .is => "Is"
  | .fromKw => "From"
  | .default => "Default"
  | .static => "Static"
  | .publicKw => "Public"
  | .privateKw => "Private"
  | .protectedKw => "Protected"
  | .abstract => "Abstract"
  | .inKw => "In"
  | .out => "Out"
  | .this => "This"
  | .string => "String_"
  | .number => "Number_"
  | .boolean => "Boolean_"
  | .void => "Void_"
  | .null => "Null_"
  | .undefined => "Undefined_"
  | .any => "Any_"
  | .unknown => "Unknown_"
  | .never => "Never_"
  | .object => "Object_"
  | .symbol => "Symbol_"
  | .bigint => "BigInt_"
  | .trueKw => "True_"
  | .falseKw => "False_"

/-- The keyword with the given spelling. -/
def ofText? (s : String) : Option Keyword :=
  all.find? (fun k => k.text == s)

/-- Keywords that are reserved in some positions only, and can name a binding elsewhere. -/
def contextual : Keyword → Bool
  | .declare | .type | .namespaceKw | .moduleKw | .readonly | .keyof | .infer | .asKw | .is
  | .fromKw | .default | .abstract | .inKw | .out | .string | .number | .boolean | .undefined
  | .any | .unknown | .never | .object | .symbol | .bigint => true
  | _ => false

/-- Every keyword is listed. -/
theorem mem_all (k : Keyword) : k ∈ all := by
  cases k <;> decide

/-- Looking up the spelling of a keyword finds that keyword. -/
theorem ofText?_text (k : Keyword) : ofText? k.text = some k := by
  cases k <;> rfl

end Keyword

/-- The punctuation marks. -/
inductive Punct where
  | lparen | rparen | lbrace | rbrace | lbracket | rbracket | langle | rangle | comma | semicolon
  | colon | dot | ellipsis | question | pipe | amp | arrow | eq | plus | minus | star | slash
  deriving DecidableEq, Repr

/-- The name of a punctuation mark in error messages. -/
def Punct.label : Punct → String
  | .lparen => "LParen"
  | .rparen => "RParen"
  | .lbrace => "LBrace"
  | .rbrace => "RBrace"
  | .lbracket => "LBracket"
  | .rbracket => "RBracket"
  | .langle => "LAngle"
  | .rangle => "RAngle"
  | .comma => "Comma"
  | .semicolon => "Semicolon"
  | .colon => "Colon"
  | .dot => "Dot"
  | .ellipsis => "DotDotDot"
  | .question => "Question"
  | .pipe => "Pipe"
  | .amp => "Amp"
  | .arrow => "Arrow"
  | .eq => "Eq"
  | .plus => "Plus"
  | .minus => "Minus"
  | .star => "Star"
  | .slash => "Slash"

/-- What a token is. -/
inductive Kind where
  /-- An identifier, a private name included with its number sign. -/
  | ident (name : String)
  /-- A string literal, with its decoded value. -/
  | string (value : String)
  /-- A number, as written. -/
  | number (text : String)
  /-- A template literal, with the text between the backticks as written. -/
  | template (raw : String)
  | keyword (k : Keyword)
  | punct (p : Punct)
  /-- A reference directive: its attribute, a colon, and the attribute's value. -/
  | directive (text : String)
  /-- The end of the text. -/
  | eof
  deriving DecidableEq, Repr

namespace Kind

/-- The kinds that carry a text of their own carry this one. -/
def value? : Kind → Option String
  | .ident s | .string s | .number s | .template s | .directive s => some s
  | _ => none

/-- The spelling of a keyword token. -/
def keywordText? : Kind → Option String
  | .keyword k => some k.text
  | _ => none

/-- The spelling of a keyword token that can stand for an identifier. -/
def contextualText? : Kind → Option String
  | .keyword k => if k.contextual then some k.text else none
  | _ => none

/-- Whether a token can stand for an identifier. -/
def isIdentLike : Kind → Bool
  | .ident _ => true
  | .keyword k => k.contextual
  | _ => false

/-- Whether a property name can begin with this token. -/
def startsPropertyName : Kind → Bool
  | .ident _ | .string _ | .number _ | .keyword _ => true
  | .punct p => p == .lbracket
  | _ => false

/-- The bare name of a kind, whatever text it carries. -/
def label : Kind → String
  | .ident _ => "Ident"
  | .string _ => "StringLiteral"
  | .number _ => "NumberLiteral"
  | .template _ => "TemplateLiteral"
  | .keyword k => k.label
  | .punct p => p.label
  | .directive _ => "TripleSlashRef"
  | .eof => "Eof"

/-- A kind in an error message: its name, followed by its text, if it carries one, as a literal in
round brackets. -/
def describe (kind : Kind) : String :=
  match kind.value? with
  | some s => kind.label ++ "(" ++ Text.literal s ++ ")"
  | none => kind.label

end Kind

/-- A token. The place is given by the byte offsets of its first byte and of the byte after its
last one. -/
structure Token where
  kind : Kind
  start : Nat
  stop : Nat
  /-- The documentation comments between the token before this one and this one. -/
  docs : List String
  deriving DecidableEq, Repr

end DeclLayer
