import DeclLayer.Layer.Error

/-!
# Qualifying references

The rules of a policy put the name of the namespace in front of references at certain sites. A site
belongs to all interfaces of a name together, so a search for it goes through their members in order
and counts index signatures across them.
-/

namespace DeclLayer

/-- The outcome of a search for a site: what was searched, with the type at the site changed and
the number of references qualified there; or the site that is left to find in what follows. -/
inductive SiteSearch (α : Type) where
  | found (value : α) (count : Nat)
  | missing (site : Site)

namespace SiteSearch

/-- Puts something around what was searched. -/
def map {α β : Type} (f : α → β) : SiteSearch α → SiteSearch β
  | .found value count => .found (f value) count
  | .missing site => .missing site

/-- Searches the elements of a list in order. -/
def inList {α : Type} (search : Site → α → SiteSearch α) (site : Site) :
    List α → SiteSearch (List α)
  | [] => .missing site
  | x :: xs =>
    match search site x with
    | .found x' count => .found (x' :: xs) count
    | .missing left => (inList search left xs).map (x :: ·)

end SiteSearch

/-- Qualifies a reference to one of the names. -/
def Ty.qualifyName (namespaceName : String) (names : List String) : Ty → Ty × Nat
  | .named name args =>
    if names.contains name then (.named (namespaceName ++ "." ++ name) args, 1)
    else (.named name args, 0)
  | ty => (ty, 0)

/-- Qualifies references to the names among types. -/
def Ty.qualifyNames (namespaceName : String) (names : List String) : List Ty → List Ty × Nat
  | [] => ([], 0)
  | ty :: tys =>
    let (ty, count) := ty.qualifyName namespaceName names
    let (tys, others) := Ty.qualifyNames namespaceName names tys
    (ty :: tys, count + others)

/-- Qualifies references to the names in a type at a site: the type itself, or the members of a
union. -/
def Ty.qualify (namespaceName : String) (names : List String) : Ty → Ty × Nat
  | .union types =>
    let (types, count) := Ty.qualifyNames namespaceName names types
    (.union types, count)
  | ty => ty.qualifyName namespaceName names

/-- Searches a member for a site, whose type is changed by `change`. -/
def Member.atSite (change : Ty → Ty × Nat) (site : Site) : Member Ty → SiteSearch (Member Ty)
  | .index i =>
    match site with
    | .indexSignature 0 =>
      let (value, count) := change i.value
      .found (.index { i with value := value }) count
    | .indexSignature (n + 1) => .missing (.indexSignature n)
    | .property name => .missing (.property name)
  | .property p =>
    if site = .property p.name then
      let (type, count) := change p.type
      .found (.property { p with type := type }) count
    else .missing site
  | _ => .missing site

/-- Searches an interface for a site of the interfaces named `name`. -/
def InterfaceDecl.atSite (name : String) (change : Ty → Ty × Nat) (site : Site)
    (d : InterfaceDecl) : SiteSearch InterfaceDecl :=
  if d.name = name then
    (SiteSearch.inList (Member.atSite change) site d.members).map fun members =>
      { d with members := members }
  else .missing site

namespace Rule

/-- Follows one rule. -/
def apply (rule : Rule) (namespaceName : String) (interfaces : List InterfaceDecl) :
    SiteSearch (List InterfaceDecl) :=
  SiteSearch.inList
    (InterfaceDecl.atSite rule.interface (Ty.qualify namespaceName rule.names))
    rule.site interfaces

/-- Follows rules in order, up to one whose site is missing: the interfaces after the rules that
were followed, and the number of references qualified or the error. -/
def applyAll (namespaceName : String) :
    List Rule → List InterfaceDecl → List InterfaceDecl × Except LayerError Nat
  | [], interfaces => (interfaces, .ok 0)
  | rule :: rules, interfaces =>
    match rule.apply namespaceName interfaces with
    | .missing _ => (interfaces, .error (.missingSite rule.interface rule.site))
    | .found interfaces count =>
      let (interfaces, total) := applyAll namespaceName rules interfaces
      (interfaces, total.map (count + ·))

end Rule

end DeclLayer
