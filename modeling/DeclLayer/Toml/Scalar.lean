import DeclLayer.Text.Basic
import DeclLayer.Toml.Value

/-!
# Strings, numbers and times of TOML

The four forms of strings, and the words that stand for booleans, numbers and times. A reader takes
the characters from its first one on, and answers what it read with the characters after it; it
answers nothing for a text that is not well formed.
-/

namespace DeclLayer.Toml

open Text

/-! ## Strings -/

/-- Whether a character can stand for itself in a string or a comment. -/
def isPlain (c : Char) : Bool :=
  c == '\t' || (0x20 ≤ c.toNat && c.toNat != 0x7F)

/-- Space and tab. -/
def isSpace (c : Char) : Bool :=
  c == ' ' || c == '\t'

/-- The number of characters of a line end at the front: one, two, or none if there is no line
end. -/
def lineEndLength : List Char → Nat
  | '\n' :: _ => 1
  | '\r' :: '\n' :: _ => 2
  | _ => 0

/-- Reads an escape after its backslash: the character, and how many characters it takes. -/
def escape : List Char → Option (Char × Nat)
  | 'b' :: _ => some ('\x08', 1)
  | 't' :: _ => some ('\t', 1)
  | 'n' :: _ => some ('\n', 1)
  | 'f' :: _ => some ('\x0c', 1)
  | 'r' :: _ => some ('\r', 1)
  | '"' :: _ => some ('"', 1)
  | '\\' :: _ => some ('\\', 1)
  | 'u' :: cs => do
    let code ← (hexDigits 4 0 cs).1
    return (← charOfCode? code, 5)
  | 'U' :: cs => do
    let code ← (hexDigits 8 0 cs).1
    return (← charOfCode? code, 9)
  | _ => none

/-- Reads a string on one line after its opening double quote. -/
def basicString : List Char → Option (List Char × List Char)
  | [] => none
  | c :: cs =>
    if c = '"' then some ([], cs)
    else if c = '\\' then do
      let (e, read) ← escape cs
      let (value, rest) ← basicString (cs.drop read)
      return (e :: value, rest)
    else if isPlain c then do
      let (value, rest) ← basicString cs
      return (c :: value, rest)
    else none
termination_by cs => cs.length
decreasing_by all_goals (simp only [List.length_cons, List.length_drop]; omega)

/-- Reads a string on one line after its opening single quote. Nothing in it is an escape. -/
def literalString : List Char → Option (List Char × List Char)
  | [] => none
  | c :: cs =>
    if c = '\'' then some ([], cs)
    else if isPlain c then do
      let (value, rest) ← literalString cs
      return (c :: value, rest)
    else none

/-- The number of spaces, tabs and line ends at the front. -/
def blankLength : List Char → Nat
  | '\r' :: '\n' :: cs => blankLength cs + 2
  | c :: cs => if isSpace c || c == '\n' then blankLength cs + 1 else 0
  | [] => 0

/-- The number of characters that a backslash hides because its line ends there: the spaces up to
the line end, and all white space after it. There are none if the line goes on. -/
def continuationLength (cs : List Char) : Nat :=
  let spaces := (cs.takeWhile isSpace).length
  let rest := cs.drop spaces
  let ends := lineEndLength rest
  if ends = 0 then 0 else spaces + ends + blankLength (rest.drop ends)

/-- Reads a string on several lines up to three quotes. Up to two more of them before the last three
belong to the string. In the form with escapes a backslash can hide a line end. -/
def multilineBody (quote : Char) (escapes : Bool) : List Char → Option (List Char × List Char)
  | [] => none
  | c :: cs =>
    if c = quote then
      let more := (cs.takeWhile (· == quote)).length
      if more < 2 then do
        let (value, rest) ← multilineBody quote escapes (cs.drop more)
        return (List.replicate (more + 1) quote ++ value, rest)
      else
        let kept := min (more - 2) 2
        some (List.replicate kept quote, cs.drop (kept + 2))
    else if escapes && c = '\\' then
      let hidden := continuationLength cs
      if hidden = 0 then do
        let (e, read) ← escape cs
        let (value, rest) ← multilineBody quote escapes (cs.drop read)
        return (e :: value, rest)
      else multilineBody quote escapes (cs.drop hidden)
    else
      let ends := lineEndLength (c :: cs)
      if 0 < ends then do
        let (value, rest) ← multilineBody quote escapes (cs.drop (ends - 1))
        return ('\n' :: value, rest)
      else if isPlain c then do
        let (value, rest) ← multilineBody quote escapes cs
        return (c :: value, rest)
      else none
termination_by cs => cs.length
decreasing_by all_goals (simp only [List.length_cons, List.length_drop]; omega)

/-- Reads a string on several lines after its opening quotes. A line end right there does not belong
to the string. -/
def multilineString (quote : Char) (escapes : Bool) (cs : List Char) :
    Option (List Char × List Char) :=
  multilineBody quote escapes (cs.drop (lineEndLength cs))

/-- Reads a string of any form. -/
def string (cs : List Char) : Option (String × List Char) := do
  let (value, rest) ← match cs with
    | '"' :: '"' :: '"' :: cs => multilineString '"' true cs
    | '\'' :: '\'' :: '\'' :: cs => multilineString '\'' false cs
    | '"' :: cs => basicString cs
    | '\'' :: cs => literalString cs
    | _ => none
  return (String.ofList value, rest)

/-! ## Numbers -/

/-- The digits of a number in which single underscores may stand between digits. -/
def digits? (isDigit : Char → Bool) (cs : List Char) : Option (List Char) :=
  let groups := splitAt '_' cs
  if groups.all fun group => !group.isEmpty && group.all isDigit then some groups.flatten else none

/-- The value of digits in a base. -/
def valueOf (base : Nat) (cs : List Char) : Nat :=
  cs.foldl (fun n c => n * base + (hexValue? c).getD 0) 0

/-- Whether a character is a digit of a base. -/
def isDigitOf (base : Nat) (c : Char) : Bool :=
  (hexValue? c).any (· < base)

/-- A decimal number without a sign. Only zero itself begins with a zero. -/
def decimal? (cs : List Char) : Option Nat := do
  let ds ← digits? Char.isDigit cs
  if ds.head? = some '0' && 1 < ds.length then none else return valueOf 10 ds

/-- The sign of a number, and what follows it. -/
def signed : List Char → Bool × List Char
  | '-' :: cs => (true, cs)
  | '+' :: cs => (false, cs)
  | cs => (false, cs)

/-- The number of values of 64 bits with a sign on either side of zero. -/
def integerRange : Nat := 0x8000000000000000

/-- A whole number that fits into 64 bits with its sign. -/
def integer? (word : List Char) : Option Int := do
  let bounded (n : Nat) : Option Int := if n < integerRange then some (Int.ofNat n) else none
  match word with
  | '0' :: 'x' :: cs => bounded (valueOf 16 (← digits? (isDigitOf 16) cs))
  | '0' :: 'o' :: cs => bounded (valueOf 8 (← digits? (isDigitOf 8) cs))
  | '0' :: 'b' :: cs => bounded (valueOf 2 (← digits? (isDigitOf 2) cs))
  | _ =>
    let (negative, cs) := signed word
    let n ← decimal? cs
    if negative then (if n ≤ integerRange then some (Int.negOfNat n) else none) else bounded n

/-- A number with a fraction or an exponent, cut into its parts. The fraction begins with its point,
and the exponent with its mark, unless they are missing. -/
structure Fractional where
  negative : Bool
  whole : List Char
  fraction : List Char
  exponent : List Char

namespace Fractional

/-- Cuts a word into the parts of a number. -/
def ofWord (word : List Char) : Fractional :=
  let (negative, cs) := signed word
  let mantissa := cs.takeWhile fun c => c != 'e' && c != 'E'
  let whole := mantissa.takeWhile (· != '.')
  ⟨negative, whole, mantissa.drop whole.length, cs.drop mantissa.length⟩

/-- Whether the parts make a number. -/
def isNumber (f : Fractional) : Bool :=
  (decimal? f.whole).isSome && !(f.fraction.isEmpty && f.exponent.isEmpty) &&
    (f.fraction.isEmpty || (digits? Char.isDigit (f.fraction.drop 1)).isSome) &&
    (f.exponent.isEmpty || (digits? Char.isDigit (signed (f.exponent.drop 1)).2).isSome)

/-- The digits of the number without zeros in front, and the power of ten that they count. -/
def scaled (f : Fractional) : List Char × Int :=
  let fraction := f.fraction.filter Char.isDigit
  let (negative, cs) := signed (f.exponent.drop 1)
  let exponent := valueOf 10 (cs.filter Char.isDigit)
  ((f.whole.filter Char.isDigit ++ fraction).dropWhile (· == '0'),
    (if negative then -(exponent : Int) else exponent) - fraction.length)

/-- The least number that no double is near enough to: it lies half a step above the largest one. -/
def limit : Nat := Nat.pow 2 1024 - Nat.pow 2 970

/-- Whether a number without its sign reaches `limit`, which has 309 digits. -/
def reachesLimit (f : Fractional) : Bool :=
  let (digits, exponent) := f.scaled
  let size := digits.length + exponent
  !digits.isEmpty && 309 ≤ size &&
    (309 < size ||
      limit * Nat.pow 10 (-exponent).toNat ≤ valueOf 10 digits * Nat.pow 10 exponent.toNat)

end Fractional

/-- Whether some characters are a number with a fraction or an exponent, or a word for infinity or
for what is no number. A positive number has to be below the limit of the doubles. -/
def isFractional (word : List Char) : Bool :=
  let cs := (signed word).2
  let f := Fractional.ofWord word
  cs == "inf".toList || cs == "nan".toList || (f.isNumber && (f.negative || !f.reachesLimit))

/-! ## Times -/

/-- A number of exactly so many digits within bounds. -/
def fixed? (width low high : Nat) (cs : List Char) : Option Nat :=
  let n := valueOf 10 cs
  if cs.length = width && cs.all Char.isDigit && low ≤ n && n ≤ high then some n else none

/-- The number of days of a month. -/
def daysOf (year month : Nat) : Nat :=
  if month = 2 then
    if year % 4 = 0 && (year % 100 != 0 || year % 400 = 0) then 29 else 28
  else if month = 4 || month = 6 || month = 9 || month = 11 then 30 else 31

/-- Whether some characters are a date. -/
def isDate (cs : List Char) : Bool :=
  match splitAt '-' cs with
  | [year, month, day] =>
    match fixed? 4 0 9999 year, fixed? 2 1 12 month with
    | some y, some m => (fixed? 2 1 (daysOf y m) day).isSome
    | _, _ => false
  | _ => false

/-- Whether some characters are a time of day. -/
def isTime (cs : List Char) : Bool :=
  match splitAt ':' cs with
  | [hour, minute, second] =>
    let whole := second.takeWhile (· != '.')
    let fraction := second.drop whole.length
    (fixed? 2 0 23 hour).isSome && (fixed? 2 0 59 minute).isSome && (fixed? 2 0 60 whole).isSome &&
      (fraction.isEmpty || (1 < fraction.length && (fraction.drop 1).all Char.isDigit))
  | _ => false

/-- Whether some characters are a time of day with a distance from universal time, or without. -/
def isOffsetTime (cs : List Char) : Bool :=
  let time := cs.takeWhile fun c => c.isDigit || c == ':' || c == '.'
  let offset := cs.drop time.length
  isTime time &&
    match offset with
    | [] | ['Z'] | ['z'] => true
    | sign :: distance =>
      (sign == '+' || sign == '-') &&
        match splitAt ':' distance with
        | [hour, minute] => (fixed? 2 0 23 hour).isSome && (fixed? 2 0 59 minute).isSome
        | _ => false

/-- Whether some characters are a date, a time, or both. -/
def isMoment (word : List Char) : Bool :=
  let date := word.take 10
  let rest := word.drop 10
  isTime word ||
    (isDate date &&
      match rest with
      | [] => true
      | mark :: time => (mark == 'T' || mark == 't' || mark == ' ') && isOffsetTime time)

/-! ## Words -/

/-- Whether a character can stand in a word that is a value. -/
def isWordChar (c : Char) : Bool :=
  c.isAlphanum || c == '+' || c == '-' || c == '.' || c == '_' || c == ':'

/-- The length of the word at the front. A date may go on with a time after a space. -/
def wordLength (cs : List Char) : Nat :=
  let word := cs.takeWhile isWordChar
  match cs.drop word.length with
  | ' ' :: rest =>
    let time := rest.takeWhile isWordChar
    if isDate word && isOffsetTime time then word.length + 1 + time.length else word.length
  | _ => word.length

/-- Reads a boolean, a number or a time. -/
def scalar (cs : List Char) : Option (Value × List Char) :=
  let word := cs.take (wordLength cs)
  let rest := cs.drop word.length
  if word == "true".toList then some (.boolean true, rest)
  else if word == "false".toList then some (.boolean false, rest)
  else match integer? word with
    | some n => some (.integer n, rest)
    | none =>
      if isFractional word then some (.fractional, rest)
      else if isMoment word then some (.moment, rest)
      else none

end DeclLayer.Toml
