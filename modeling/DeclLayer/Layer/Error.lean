import DeclLayer.Layer.Policy
import DeclLayer.Parse.Error
import DeclLayer.Store.Path

/-!
# Why a layer cannot be built

The causes that end a run, with their wording. Nothing is written when one of them arises.
-/

namespace DeclLayer

/-- A reference in a separated declaration to something that only the namespace holds. -/
structure UnresolvedReference where
  /-- The separated declaration with the reference. -/
  declaration : String
  /-- The name, as written. -/
  reference : String
  deriving DecidableEq, Repr

/-- The wording of an unresolved reference. -/
def UnresolvedReference.text (r : UnresolvedReference) : String :=
  "`" ++ r.reference ++ "` in `" ++ r.declaration ++ "`"

/-- What was done to a file. -/
inductive FileAction where
  | read
  | write
  deriving DecidableEq, Repr

/-- The name of an action. -/
def FileAction.text : FileAction → String
  | .read => "read"
  | .write => "write"

/-- Why a layer cannot be built. -/
inductive LayerError where
  /-- A file could not be read or written. -/
  | file (action : FileAction) (path : Path) (reason : String)
  /-- There is no declaration file. -/
  | missingSource (path : Path)
  /-- The declaration file, whose text is kept for a report, cannot be read. -/
  | syntaxError (path : Path) (text : String) (error : SyntaxError)
  | missingNamespace (name : String)
  /-- The policy names what the namespace does not declare. -/
  | unknownNames (namespaceName : String) (names : List String)
  /-- A rule points at a member that is not there. -/
  | missingSite (interface : String) (site : Site)
  /-- A rule qualifies names that are not in the namespace any more. -/
  | hoistedNames (interface : String) (names : List String)
  | missingBrandTarget (interface : String)
  | duplicateBrand (interface property : String)
  | invalidBrandType (type : String) (error : SyntaxError)
  | unresolved (references : List UnresolvedReference)
  deriving DecidableEq, Repr

/-- The wording of an error. -/
def LayerError.message : LayerError → String
  | .file action path reason =>
    "failed to " ++ action.text ++ " `" ++ path.text ++ "`: " ++ reason
  | .missingSource path => "declaration file `" ++ path.text ++ "` not found"
  | .syntaxError path _ error => "failed to parse `" ++ path.text ++ "`: " ++ error.message
  | .missingNamespace name => "namespace `" ++ name ++ "` not found in declaration file"
  | .unknownNames namespaceName names =>
    "names in the separation policy do not exist in namespace `" ++ namespaceName ++ "`: " ++
      Text.joinWith ", " names
  | .missingSite interface site =>
    "rewrite site " ++ site.text ++ " not found on interface `" ++ interface ++ "`"
  | .hoistedNames interface names =>
    "rewrite rule for `" ++ interface ++ "` qualifies hoisted names: " ++
      Text.joinWith ", " names
  | .missingBrandTarget interface =>
    "brand target interface `" ++ interface ++ "` not found in the consolidated namespace"
  | .duplicateBrand interface property =>
    "interface `" ++ interface ++ "` already declares the brand property `" ++ property ++ "`"
  | .invalidBrandType type error => "invalid brand type `" ++ type ++ "`: " ++ error.message
  | .unresolved references =>
    "unresolved cross-tier references: " ++
      Text.joinWith ", " (references.map UnresolvedReference.text)

/-- The wording of what caused an error, where that is an error of its own. -/
def LayerError.reason? : LayerError → Option String
  | .file _ _ reason => some reason
  | .syntaxError _ _ error => some error.message
  | .invalidBrandType _ error => some error.message
  | _ => none

end DeclLayer
