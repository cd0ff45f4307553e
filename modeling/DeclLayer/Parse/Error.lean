import DeclLayer.Token.Kind

/-!
# Syntax errors

A source that cannot be read is refused for one cause at one place. The place is the first byte of
the token at which the reader stopped.
-/

namespace DeclLayer

/-- Why a source is refused. -/
inductive SyntaxCause where
  /-- A certain token has to stand here. -/
  | expected (wanted found : Kind)
  | expectedIdentifier (found : Kind)
  | expectedPropertyName (found : Kind)
  /-- Only a number can follow a minus sign in a type. -/
  | expectedNumber (found : Kind)
  /-- An imported type names its module by a string. -/
  | expectedModuleSpecifier (found : Kind)
  /-- No type begins with this token. -/
  | unexpectedInType (found : Kind)
  /-- Something is left after a type that stands alone. -/
  | unexpectedAfterType (found : Kind)
  /-- The nesting is deeper than the number of tokens, which no source is. -/
  | tooDeep
  deriving DecidableEq, Repr

/-- The wording of a cause. -/
def SyntaxCause.message : SyntaxCause → String
  | .expected wanted found => "expected " ++ wanted.describe ++ ", found " ++ found.describe
  | .expectedIdentifier found => "expected identifier, found " ++ found.describe
  | .expectedPropertyName found => "expected property name, found " ++ found.describe
  | .expectedNumber found => "expected number after '-', found " ++ found.describe
  | .expectedModuleSpecifier found => "expected module specifier, found " ++ found.describe
  | .unexpectedInType found => "unexpected token in type position: " ++ found.describe
  | .unexpectedAfterType found => "unexpected " ++ found.describe ++ " after type"
  | .tooDeep => "nesting too deep"

/-- A cause with its place, a byte offset into the source. -/
structure SyntaxError where
  cause : SyntaxCause
  pos : Nat
  deriving DecidableEq, Repr

/-- The wording of an error with its place. -/
def SyntaxError.message (e : SyntaxError) : String :=
  "parse error at " ++ toString e.pos ++ ": " ++ e.cause.message

end DeclLayer
