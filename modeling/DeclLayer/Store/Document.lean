import DeclLayer.Layer.Reference
import DeclLayer.Parse.Item
import DeclLayer.Render.Item
import DeclLayer.Store.Basic

/-!
# Documents

A document is a file that is being put together: a list of statements, or a text that stands for
the whole file whatever its statements are.
-/

namespace DeclLayer

/-- A file that is being put together. -/
structure Document where
  path : Path
  statements : List Item
  /-- A text that stands for the whole file. -/
  override : Option String

namespace Document

/-- A file without statements. -/
def empty (path : Path) : Document := ⟨path, [], none⟩

/-- A file that is kept as a text. -/
def ofText (path : Path) (text : String) : Document := ⟨path, [], some text⟩

/-- A declaration file. -/
def parse (path : Path) (text : String) : Except LayerError Document :=
  match parseItems text with
  | .ok items => .ok ⟨path, items, none⟩
  | .error e => .error (.syntaxError path text e)

/-- Takes away everything. -/
def clear (d : Document) : Document := { d with statements := [], override := none }

/-- Replaces everything by a text. -/
def replaceText (d : Document) (text : String) : Document :=
  { d with statements := [], override := some text }

/-- Adds statements at the end. -/
def add (d : Document) (items : List Item) : Document :=
  { d with statements := d.statements ++ items }

/-- Puts statement text before the statement with the given number, or at the end. -/
def insertText (d : Document) (index : Nat) (text : String) : Document :=
  { d with statements :=
      d.statements.take index ++ .verbatim text :: d.statements.drop index }

/-- Strips the import types in the statements, and counts them. -/
def stripImportTypes (d : Document) : Document × Nat :=
  let (items, count) := DeclLayer.stripImportTypes d.statements
  ({ d with statements := items }, count)

/-- The text of a document. -/
def text (d : Document) (style : Style) : String :=
  match d.override with
  | some text => text
  | none => renderItems style d.statements

end Document

namespace Store

variable {σ : Type} [Store σ]

/-- Reads a file for a run. -/
def readFile (s : σ) (path : Path) : Except LayerError (Option String) :=
  match Store.read s path with
  | .ok text => .ok text
  | .error reason => .error (.file .read path reason)

/-- The declaration file at a path, if there is one. -/
def document? (s : σ) (path : Path) : Except LayerError (Option Document) := do
  match ← readFile s path with
  | none => return none
  | some text => return some (← Document.parse path text)

/-- The declaration file at a path. -/
def document (s : σ) (path : Path) : Except LayerError Document := do
  match ← document? s path with
  | none => .error (.missingSource path)
  | some d => return d

/-- The document for an output file: whatever the file held is taken away. -/
def outputDocument (s : σ) (path : Path) : Except LayerError Document := do
  match ← readFile s path with
  | none => return .empty path
  | some text => return (Document.ofText path text).clear

/-- Writes the text of a file for a run. -/
def save (s : σ) (path : Path) (text : String) : Except LayerError Unit × σ :=
  match Store.write s path text with
  | (.ok (), s) => (.ok (), s)
  | (.error reason, s) => (.error (.file .write path reason), s)

end Store

end DeclLayer
