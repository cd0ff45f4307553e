/-!
# Values of a TOML document

A document is a table. Tables and arrays remember how they came about, because that decides whether
a later part of the document may add to them.
-/

namespace DeclLayer.Toml

/-- How a table came about. -/
inductive Origin where
  /-- Written in braces: complete. -/
  | braces
  /-- Named only on the way to a table below it. -/
  | implied
  /-- Named by a dotted key. -/
  | dotted
  /-- Opened by its own header. -/
  | header
  deriving DecidableEq, Repr

/-- A value. -/
inductive Value where
  | string (text : String)
  | integer (n : Int)
  | boolean (b : Bool)
  /-- A number with a fraction or an exponent, which no setting holds. -/
  | fractional
  /-- A date, a time of day, or both. -/
  | moment
  /-- An array in brackets: complete. -/
  | array (elements : List Value)
  | table (origin : Origin) (entries : List (String × Value))
  /-- An array of tables with a header each, whose last table can grow. -/
  | tables (elements : List Value)

instance : Inhabited Value := ⟨.boolean false⟩

/-- The entries of a table. -/
abbrev Entries := List (String × Value)

/-- The elements of an array of either sort. -/
def Value.elements? : Value → Option (List Value)
  | .array elements => some elements
  | .tables elements => some elements
  | _ => none

/-- Whether a value is an array or a table with nothing in it. -/
def Value.isVacant : Value → Bool
  | .array elements => elements.isEmpty
  | .tables elements => elements.isEmpty
  | .table _ entries => entries.isEmpty
  | _ => false

/-- The text of a string. -/
def Value.string? : Value → Option String
  | .string text => some text
  | _ => none

/-- The truth value of a boolean. -/
def Value.boolean? : Value → Option Bool
  | .boolean b => some b
  | _ => none

/-- The number of an integer that is not negative. -/
def Value.natural? : Value → Option Nat
  | .integer (.ofNat n) => some n
  | _ => none

/-- The texts of an array of strings. -/
def Value.strings? (v : Value) : Option (List String) := do
  (← v.elements?).mapM Value.string?

/-- The name that a value chooses among some: a string, or the only key of a table, over a value
with nothing in it. -/
def Value.choice? : Value → Option String
  | .string name => some name
  | .table _ [(name, v)] => if v.isVacant then some name else none
  | _ => none

namespace Entries

/-- Changes the value under a key, or adds one. -/
def alter (key : String) (change : Option Value → Option Value) : Entries → Option Entries
  | [] => do return [(key, ← change none)]
  | (k, v) :: entries =>
    if k = key then do return (k, ← change (some v)) :: entries
    else do return (k, v) :: (← alter key change entries)

/-- Adds a value under a key that is not there yet. -/
def add (key : String) (value : Value) (entries : Entries) : Option Entries :=
  alter key (fun | none => some value | some _ => none) entries

/-- Changes the last element of a list. -/
def alterLast (change : Value → Option Value) : List Value → Option (List Value)
  | [] => none
  | [v] => do return [← change v]
  | v :: vs => do return v :: (← alterLast change vs)

/-- Changes the entries of a table, keeping how it came about. -/
def inTable (change : Entries → Option Entries) : Value → Option Value
  | .table origin entries => do return .table origin (← change entries)
  | _ => none

/-- Adds a value under a dotted key. The tables on the way must have been named by dotted keys
themselves, except that the key may pass implied tables and the last table of an array, as long as
it does not end there. -/
def addDotted : List String → String → Value → Entries → Option Entries
  | [], key, value, entries => add key value entries
  | word :: words, key, value, entries =>
    alter word (fun
      | none => do return .table .dotted (← addDotted words key value [])
      | some (.table .dotted inner) => do
        return .table .dotted (← addDotted words key value inner)
      | some (.table .implied inner) =>
        if words.isEmpty then none
        else do return .table .implied (← addDotted words key value inner)
      | some (.tables elements) =>
        if words.isEmpty then none
        else do return .tables (← alterLast (inTable (addDotted words key value)) elements)
      | some _ => none) entries

/-- Changes the table that a header path leads to. Tables on the way are implied if they are
missing, and an array of tables stands for its last one. -/
def within : List String → (Entries → Option Entries) → Entries → Option Entries
  | [], change, entries => change entries
  | word :: words, change, entries =>
    alter word (fun
      | none => do return .table .implied (← within words change [])
      | some (.table .braces _) => none
      | some (.table origin inner) => do return .table origin (← within words change inner)
      | some (.tables elements) => do
        return .tables (← alterLast (inTable (within words change)) elements)
      | some _ => none) entries

/-- Opens a table by its header. It may have been implied before, but not opened. -/
def openTable (key : String) (entries : Entries) : Option Entries :=
  alter key (fun
    | none => some (.table .header [])
    | some (.table .implied inner) => some (.table .header inner)
    | some _ => none) entries

/-- Opens a new table of an array by its header. -/
def openElement (key : String) (entries : Entries) : Option Entries :=
  alter key (fun
    | none => some (.tables [.table .header []])
    | some (.tables elements) => some (.tables (elements ++ [.table .header []]))
    | some _ => none) entries

end Entries

end DeclLayer.Toml
