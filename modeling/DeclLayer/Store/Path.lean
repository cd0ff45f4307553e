import DeclLayer.Text.Basic

/-!
# Paths

A path is kept as it was written, and compared by its components: repeated separators and dots
between them do not count, but a dot at the front does. Nothing is resolved.
-/

namespace DeclLayer

/-- A path, as written. -/
structure Path where
  text : String
  deriving DecidableEq, Repr

namespace Path

/-- Whether a path starts at the root. -/
def isAbsolute (p : Path) : Bool :=
  p.text.toList.head? == some '/'

/-- The components of a path: the root or a dot at the front, then the names. -/
def components (p : Path) : List String :=
  let pieces := (Text.splitAt '/' p.text.toList).map String.ofList
  let lead := if p.isAbsolute then ["/"] else if pieces.head? = some "." then ["."] else []
  lead ++ pieces.filter fun piece => piece != "" && piece != "."

/-- Whether two paths are the same. -/
def same (p q : Path) : Bool :=
  p.components == q.components

/-- A path below another one. An absolute path stands for itself. -/
def join (base p : Path) : Path :=
  if p.isAbsolute then p
  else
    let gap := match base.text.toList.getLast? with
      | none => ""
      | some c => if c = '/' then "" else "/"
    ⟨base.text ++ gap ++ p.text⟩

/-- The directory of a path: its components but the last. The root and the empty path have none. -/
def parent? (p : Path) : Option Path :=
  match p.components with
  | [] => none
  | ["/"] => none
  | "/" :: names => some ⟨"/" ++ Text.joinWith "/" names.dropLast⟩
  | names => some ⟨Text.joinWith "/" names.dropLast⟩

end Path

end DeclLayer
