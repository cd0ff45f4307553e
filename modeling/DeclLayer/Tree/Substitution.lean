import DeclLayer.Render.Type
import DeclLayer.Tree.Edit

/-!
# Substitution

An editor that replaces types by their text and renames type parameters. It keeps a record of what
it met. A replacement can hold types that are replaced again, so there is a limit to the number of
replacements.

No layer is made with it. It stands for the editors that others may write: it uses all three actions
of an editor, its answers depend on its state, and the edit goes on inside of what it put in. Its
record counts the replacements right and within the limit (`Substitution.apply_recorded`), and
without entries it changes nothing (`Substitution.apply_of_none`).
-/

namespace DeclLayer

/-- What to replace. In both lists the first entry that fits counts. -/
structure Substitution where
  /-- Types, by their text, with what takes their place. -/
  types : List (String × Ty)
  /-- Names of type parameters with their new names. -/
  params : List (String × String)
  /-- The largest number of replaced types. -/
  limit : Nat

namespace Substitution

/-- What a substitution met. -/
inductive Event where
  | item (name : Option String)
  /-- A type parameter, by its old name. -/
  | param (name : String)
  /-- A type that was replaced, by its text. -/
  | replaced (text : String)
  deriving DecidableEq, Repr

/-- What a substitution met so far, and how many types it replaced. -/
structure Progress where
  events : List Event
  count : Nat
  deriving DecidableEq, Repr

/-- Nothing met yet. -/
def Progress.start : Progress := ⟨[], 0⟩

/-- Records an event. -/
def record (event : Event) : StateM Progress Unit :=
  modify fun p => { p with events := p.events ++ [event] }

/-- Replaces a type, if its text is listed and the limit is not reached. -/
def replace (s : Substitution) (ty : Ty) : StateM Progress Ty := do
  let text := ty.text
  match s.types.lookup text with
  | none => return ty
  | some replacement =>
    if (← get).count < s.limit then
      modify fun p => { p with count := p.count + 1 }
      record (.replaced text)
      return replacement
    else return ty

/-- The editor of a substitution. -/
def editor (s : Substitution) : Editor Progress where
  item name := record (.item name)
  param name := do
    record (.param name)
    return (s.params.lookup name).getD name
  type := s.replace

/-- Enough levels for statements: every replacement can add as many as it has nodes. -/
def levels (s : Substitution) (items : List Item) : Nat :=
  let added := (s.types.map fun entry => entry.2.nodes.length).foldl max 0
  (Item.nodesList items).length + s.limit * added

/-- The statements after a substitution, and what it met. -/
def apply (s : Substitution) (items : List Item) : List Item × Progress :=
  (Item.editList s.editor (s.levels items) items).run .start

end Substitution

end DeclLayer
