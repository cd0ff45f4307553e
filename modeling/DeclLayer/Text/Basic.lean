/-!
# Text

The character classes and the cutting operations that the rest of the library is built on. A text
is a `String`; the operations that look inside one are defined on its characters, so that they have
ordinary equations, and are lifted to `String` where a caller wants one.

* `isBlank`, `isControl`, `hexValue?` are the character classes, `hexDigits` reads a code;
* `utf8Size` measures characters in bytes, the unit of every source position;
* `splitAt`, `lines` cut a text, `trim` and its halves shorten it;
* `slice` cuts a range of bytes out of a text.
-/

namespace DeclLayer.Text

/-! ## Character classes -/

/-- White space: the characters with the Unicode property of that name. The byte order mark and the
zero width space are not among them. -/
def isBlank (c : Char) : Bool :=
  let n := c.toNat
  (0x9 ≤ n && n ≤ 0xD) || n == 0x20 || n == 0x85 || n == 0xA0 || n == 0x1680 ||
    (0x2000 ≤ n && n ≤ 0x200A) || n == 0x2028 || n == 0x2029 || n == 0x202F || n == 0x205F ||
    n == 0x3000

/-- Control characters: the two blocks of category Cc. -/
def isControl (c : Char) : Bool :=
  c.toNat ≤ 0x1F || (0x7F ≤ c.toNat && c.toNat ≤ 0x9F)

/-- The value of a hexadecimal digit in either case. -/
def hexValue? (c : Char) : Option Nat :=
  if '0' ≤ c && c ≤ '9' then some (c.toNat - '0'.toNat)
  else if 'a' ≤ c && c ≤ 'f' then some (c.toNat - 'a'.toNat + 10)
  else if 'A' ≤ c && c ≤ 'F' then some (c.toNat - 'A'.toNat + 10)
  else none

/-- Reads `count` hexadecimal digits behind the ones already read, whose value is `acc`. It stops
at the first other character, and the digits before that one count as read. -/
def hexDigits (count acc : Nat) : List Char → Option Nat × Nat
  | [] => (if count = 0 then some acc else none, 0)
  | c :: cs =>
    match count with
    | 0 => (some acc, 0)
    | count + 1 =>
      match hexValue? c with
      | none => (none, 0)
      | some d =>
        let (code, read) := hexDigits count (acc * 16 + d) cs
        (code, read + 1)

/-- The digit for a value below sixteen, letters in upper case. -/
def upperHexDigit (n : Nat) : Char :=
  if n < 10 then Char.ofNat ('0'.toNat + n) else Char.ofNat ('A'.toNat + (n - 10))

/-- The last four hexadecimal digits of a number, in upper case. -/
def upperHex4 (n : Nat) : List Char :=
  [upperHexDigit (n / 4096 % 16), upperHexDigit (n / 256 % 16), upperHexDigit (n / 16 % 16),
    upperHexDigit (n % 16)]

/-- The character with the given code, unless the code is a surrogate or too large. -/
def charOfCode? (n : Nat) : Option Char :=
  if n.isValidChar then some (Char.ofNat n) else none

/-! ## Sizes -/

/-- The number of bytes of some characters in UTF-8. -/
def utf8Size : List Char → Nat
  | [] => 0
  | c :: cs => c.utf8Size + utf8Size cs

@[simp] theorem utf8Size_nil : utf8Size [] = 0 := rfl

@[simp] theorem utf8Size_cons (c : Char) (cs : List Char) :
    utf8Size (c :: cs) = c.utf8Size + utf8Size cs := rfl

@[simp] theorem utf8Size_append (as bs : List Char) :
    utf8Size (as ++ bs) = utf8Size as + utf8Size bs := by
  induction as with
  | nil => simp
  | cons c as ih => simp only [List.cons_append, utf8Size_cons, ih, Nat.add_assoc]

/-! ## Cutting -/

/-- The pieces between the occurrences of a separator. There is always at least one piece. -/
def splitAt (sep : Char) : List Char → List (List Char)
  | [] => [[]]
  | c :: cs =>
    if c = sep then [] :: splitAt sep cs
    else match splitAt sep cs with
      | [] => [[c]]
      | piece :: pieces => (c :: piece) :: pieces

/-- The lines of a text. A line ends at a line feed, and a carriage return directly before that
line feed belongs to the line end; a text that ends with a line feed has no empty line after it. -/
def linesOf : List Char → List (List Char)
  | [] => []
  | '\n' :: cs => [] :: linesOf cs
  | '\r' :: '\n' :: cs => [] :: linesOf cs
  | c :: cs =>
    match linesOf cs with
    | [] => [[c]]
    | line :: rest => (c :: line) :: rest

/-- The lines of a text, as texts. -/
def lines (s : String) : List String :=
  (linesOf s.toList).map String.ofList

/-- What follows the white space at the front. -/
def trimFront (cs : List Char) : List Char :=
  cs.dropWhile isBlank

/-- A list without the longest run at its end in which everything satisfies `p`. -/
def dropBackWhile {α : Type} (p : α → Bool) : List α → List α
  | [] => []
  | x :: xs =>
    match dropBackWhile p xs with
    | [] => if p x then [] else [x]
    | y :: ys => x :: y :: ys

/-- What precedes the white space at the back. -/
def trimBack (cs : List Char) : List Char :=
  dropBackWhile isBlank cs

/-- A text without the white space around it. -/
def trim (s : String) : String :=
  String.ofList (trimBack (trimFront s.toList))

/-- What follows the given beginning, if the list begins with it. -/
def after? : List Char → List Char → Option (List Char)
  | [], cs => some cs
  | _ :: _, [] => none
  | p :: ps, c :: cs => if p = c then after? ps cs else none

/-- What follows the first occurrence of a pattern. -/
def afterFirst? (pattern : List Char) : List Char → Option (List Char)
  | [] => after? pattern []
  | c :: cs =>
    match after? pattern (c :: cs) with
    | some rest => some rest
    | none => afterFirst? pattern cs

/-- What precedes the first occurrence of a character, if it occurs. -/
def before? (stop : Char) (cs : List Char) : Option (List Char) :=
  if cs.contains stop then some (cs.takeWhile (· != stop)) else none

/-- The characters whose first byte is at least `n` bytes into the list. -/
def dropBytes (n : Nat) : List Char → List Char
  | [] => []
  | c :: cs => if n = 0 then c :: cs else dropBytes (n - c.utf8Size) cs

/-- The characters whose first byte is less than `n` bytes into the list. -/
def takeBytes (n : Nat) : List Char → List Char
  | [] => []
  | c :: cs => if n = 0 then [] else c :: takeBytes (n - c.utf8Size) cs

/-- The characters between two byte offsets. -/
def slice (cs : List Char) (start stop : Nat) : List Char :=
  takeBytes (stop - start) (dropBytes start cs)

/-- The texts in order with a separator between neighbours. -/
def joinWith (sep : String) (parts : List String) : String :=
  sep.intercalate parts

end DeclLayer.Text
